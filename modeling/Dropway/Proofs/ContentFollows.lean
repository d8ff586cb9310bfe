import Dropway.Api.ContentIndex

/-! Whether the content index follows what is published. For the versions of a site
it does; for a skill it does as long as the passes replace its chunks in the order
of their publications. -/

namespace Dropway.Api
open Lib Calls
open ContentDb

variable {ε : Type} {indexing : Indexing ε} {db : ContentDb ε}

/-! ### What a pass produces -/

abbrev NewChunkInput.key (chunk : NewChunkInput ε) : Text × Nat := (chunk.path, chunk.chunkSeq)

private theorem fileChunks_path {file : Text × IndexedFile} {chunk : NewChunkInput ε}
    (mem : chunk ∈ fileChunks indexing file) : chunk.path = file.1 := by
  unfold fileChunks at mem
  split at mem
  · cases mem
  · split at mem
    · cases mem
    · obtain ⟨i, inside, rfl⟩ := List.mem_mapIdx.mp mem
      rfl

private theorem fileChunks_distinct (file : Text × IndexedFile) :
    ((fileChunks indexing file).map NewChunkInput.key).Nodup := by
  unfold fileChunks
  split
  · exact List.nodup_nil
  · split
    · exact List.nodup_nil
    · refine List.pairwise_map.mpr (List.pairwise_iff_getElem.mpr ?_)
      intro i j first second less same
      have seq := congrArg Prod.snd same
      simp only [List.getElem_mapIdx] at seq
      omega

/-- No two chunks of a pass have one path and one number. -/
theorem indexManifest_distinct (manifest : IndexManifest) :
    ((indexManifest indexing manifest).map NewChunkInput.key).Nodup := by
  unfold indexManifest
  refine List.Nodup.sublist ((List.take_sublist _ _).map _) ?_
  have files : (((manifest.files.filter fun file => indexableTextPath file.1).mergeSort
      fun one two => decide (one.1 ≤ two.1)).map Prod.fst).Nodup := by
    refine ((List.mergeSort_perm _ _).map Prod.fst).nodup_iff.mpr ?_
    exact manifest.distinct.sublist (List.filter_sublist.map _)
  generalize (manifest.files.filter fun file => indexableTextPath file.1).mergeSort
    (fun one two => decide (one.1 ≤ two.1)) = sorted at files
  induction sorted with
  | nil => exact List.nodup_nil
  | cons file rest ih =>
    obtain ⟨apart, files⟩ := List.nodup_cons.mp files
    rw [List.flatMap_cons, List.map_append, List.nodup_append]
    refine ⟨fileChunks_distinct file, ih files, ?_⟩
    rintro key mem other otherMem rfl
    obtain ⟨chunk, chunkMem, rfl⟩ := List.mem_map.mp mem
    obtain ⟨later, laterMem, same⟩ := List.mem_map.mp otherMem
    obtain ⟨next, nextMem, own⟩ := List.mem_flatMap.mp laterMem
    have path := congrArg Prod.fst same
    simp only [fileChunks_path own, fileChunks_path chunkMem] at path
    exact apart (path ▸ List.mem_map_of_mem nextMem)

/-- What a pass over the version would produce. -/
def ContentDb.content (indexing : Indexing ε) (db : ContentDb ε) (versionId : Text) : Option (List (NewChunkInput ε)) :=
  (db.manifests versionId).map (indexManifest indexing)

/-- The stored chunks of the source are these. -/
def Stores (db : ContentDb ε) (source : ChunkSource) (chunks : List (NewChunkInput ε)) : Prop :=
  ∀ chunk, (∃ row ∈ db.chunks.rows, row.source = source ∧ row.chunk = chunk) ↔ chunk ∈ chunks

/-- The stored chunks of the source are those of a single pass over the version. -/
def Indexed (indexing : Indexing ε) (db : ContentDb ε) (source : ChunkSource) (versionId : Text) : Prop :=
  ∃ chunks, db.content indexing versionId = some chunks ∧ Stores db source chunks

structure IndexFollows (indexing : Indexing ε) (db : ContentDb ε) : Prop where
  sites : ∀ siteId versionId, db.currentSite siteId = some versionId →
    Indexed indexing db (.siteVersion versionId) versionId
  skills : ∀ skillId publication, db.currentSkill skillId = some publication →
    Indexed indexing db (.skill skillId) publication.versionId

/-! ### Replacing chunks -/

private theorem mem_insertContentChunk {table : Table (ContentChunk.place (ε := ε))} {row other : ContentChunk ε} :
    other ∈ (insertContentChunk table row).rows ↔ other ∈ table.rows ∨ other = row ∧ table.get? row.place = none := by
  unfold insertContentChunk
  split
  · rename_i free
    have rows : other ∈ (table.insert row free).rows ↔ other ∈ table.rows ∨ other = row := Table.mem_insert
    rw [rows]
    exact or_congr_right ⟨fun same => ⟨same, free⟩, And.left⟩
  · rename_i taken
    constructor
    · exact .inl
    · rintro (mem | ⟨-, free⟩)
      · exact mem
      · rw [taken] at free
        cases free

/-- Rows of different places are inserted where nothing stands in their way. -/
private theorem mem_insertAll {table : Table (ContentChunk.place (ε := ε))} {rows : List (ContentChunk ε)}
    (distinct : (rows.map ContentChunk.place).Nodup) {other : ContentChunk ε} :
    other ∈ (rows.foldl insertContentChunk table).rows ↔
      other ∈ table.rows ∨ other ∈ rows ∧ table.get? other.place = none := by
  induction rows generalizing table with
  | nil => simp
  | cons row rest ih =>
    obtain ⟨apart, distinct⟩ := List.nodup_cons.mp distinct
    rw [List.foldl_cons, ih distinct, mem_insertContentChunk]
    have free (mem : other ∈ rest) :
        (insertContentChunk table row).get? other.place = none ↔ table.get? other.place = none := by
      have differ : row.place ≠ other.place := fun same => apart (same ▸ List.mem_map_of_mem mem)
      rw [Table.get?_eq_none, Table.get?_eq_none]
      constructor
      · intro none found mem
        exact none found (mem_insertContentChunk.mpr (.inl mem))
      · intro none found mem
        rcases mem_insertContentChunk.mp mem with old | ⟨rfl, -⟩
        · exact none found old
        · exact differ
    constructor
    · rintro ((old | ⟨rfl, unused⟩) | ⟨mem, unused⟩)
      · exact .inl old
      · exact .inr ⟨List.mem_cons_self, unused⟩
      · exact .inr ⟨List.mem_cons_of_mem _ mem, (free mem).mp unused⟩
    · rintro (old | ⟨mem, unused⟩)
      · exact .inl (.inl old)
      · rcases List.mem_cons.mp mem with rfl | mem
        · exact .inl (.inr ⟨rfl, unused⟩)
        · exact .inr ⟨mem, (free mem).mpr unused⟩

section Replace

variable {source : ChunkSource} {seen : Nat} {chunks : List (NewChunkInput ε)}
  (distinct : (chunks.map NewChunkInput.key).Nodup)

include distinct in
private theorem mem_replace {row : ContentChunk ε} :
    row ∈ (db.replaceContentChunks source seen chunks).chunks.rows ↔
      (row ∈ db.chunks.rows ∧ ¬ (row.source = source ∧ row.batch < seen)) ∨
        (row.source = source ∧ row.batch = db.batches ∧ row.chunk ∈ chunks ∧
          ∀ old ∈ db.chunks.rows, ¬ (old.source = source ∧ old.batch < seen) → old.place ≠ row.place) := by
  have places : ((chunks.map fun chunk => (⟨source, db.batches, chunk⟩ : ContentChunk ε)).map
      ContentChunk.place).Nodup := by
    rw [List.map_map]
    refine List.pairwise_map.mpr ((List.pairwise_map.mp distinct).imp fun differ same => differ ?_)
    exact congrArg Prod.snd same
  have deleted (row : ContentChunk ε) : row ∈ (db.chunks.delete fun row => row.source = source ∧ row.batch < seen).rows ↔
      row ∈ db.chunks.rows ∧ ¬ (row.source = source ∧ row.batch < seen) := by
    rw [Table.mem_delete, decide_eq_false_iff_not]
  simp only [replaceContentChunks]
  rw [mem_insertAll places, deleted, Table.get?_eq_none]
  refine or_congr_right ?_
  constructor
  · rintro ⟨mem, free⟩
    obtain ⟨chunk, chunkMem, rfl⟩ := List.mem_map.mp mem
    exact ⟨rfl, rfl, chunkMem, fun old oldMem kept => free old ((deleted old).mpr ⟨oldMem, kept⟩)⟩
  · rintro ⟨rfl, own, chunkMem, free⟩
    refine ⟨List.mem_map.mpr ⟨row.chunk, chunkMem, own ▸ rfl⟩, ?_⟩
    intro old oldMem
    obtain ⟨before, kept⟩ := (deleted old).mp oldMem
    exact free old before kept

include distinct in
/-- What is left of the source's old chunks is among the new. -/
theorem stores_replace (kept : ∀ row ∈ db.chunks.rows, row.source = source → ¬ row.batch < seen → row.chunk ∈ chunks) :
    Stores (db.replaceContentChunks source seen chunks) source chunks := by
  intro chunk
  constructor
  · rintro ⟨row, mem, own, rfl⟩
    rcases (mem_replace distinct).mp mem with ⟨old, stays⟩ | ⟨-, -, new, -⟩
    · exact kept row old own fun before => stays ⟨own, before⟩
    · exact new
  · intro mem
    by_cases taken : ∃ old ∈ db.chunks.rows, ¬ (old.source = source ∧ old.batch < seen) ∧
        old.place = (source, chunk.path, chunk.chunkSeq)
    · obtain ⟨old, oldMem, stays, place⟩ := taken
      have own : old.source = source := congrArg Prod.fst place
      have among := kept old oldMem own fun before => stays ⟨own, before⟩
      have same : old.chunk = chunk :=
        List.inj_on_of_nodup_map distinct among mem (congrArg Prod.snd place)
      exact ⟨old, (mem_replace distinct).mpr (.inl ⟨oldMem, stays⟩), own, same⟩
    · refine ⟨⟨source, db.batches, chunk⟩, (mem_replace distinct).mpr (.inr ⟨rfl, rfl, mem, ?_⟩), rfl, rfl⟩
      intro old oldMem stays same
      exact taken ⟨old, oldMem, stays, same⟩

include distinct in
theorem stores_other {other : ChunkSource} (differ : other ≠ source) (stored : List (NewChunkInput ε)) :
    Stores (db.replaceContentChunks source seen chunks) other stored ↔ Stores db other stored := by
  have rows (chunk : NewChunkInput ε) :
      (∃ row ∈ (db.replaceContentChunks source seen chunks).chunks.rows, row.source = other ∧ row.chunk = chunk) ↔
        ∃ row ∈ db.chunks.rows, row.source = other ∧ row.chunk = chunk := by
    constructor
    · rintro ⟨row, mem, rfl, same⟩
      rcases (mem_replace distinct).mp mem with ⟨old, -⟩ | ⟨own, -⟩
      · exact ⟨row, old, rfl, same⟩
      · exact absurd own differ
    · rintro ⟨row, mem, rfl, same⟩
      exact ⟨row, (mem_replace distinct).mpr (.inl ⟨mem, fun own => differ own.1⟩), rfl, same⟩
  simp only [Stores, rows]

end Replace

/-! ### One step -/

/-- What a step of a request does. -/
inductive IndexStep (indexing : Indexing ε) (db : ContentDb ε) :
    ContentRequest → IndexStage ε → IndexStage ε → ContentDb ε → Prop
  | putSite {versionId : Text} {manifest : IndexManifest} :
      IndexStep indexing db (.finalizeSite versionId manifest) .requested .finished (db.putManifest versionId manifest)
  | putSkill {skillId versionId : Text} {manifest : IndexManifest} :
      IndexStep indexing db (.finalizeSkill skillId versionId manifest) .requested .publishing
        (db.putManifest versionId manifest)
  | publishSite {siteId versionId : Text} :
      IndexStep indexing db (.publishSite siteId versionId) .requested (.started 0) (db.publishSite siteId versionId)
  | publishSkill {skillId versionId : Text} {manifest : IndexManifest} :
      IndexStep indexing db (.finalizeSkill skillId versionId manifest) .publishing (.started db.publications)
        (db.publishSkill skillId versionId)
  | indexed {siteId versionId : Text} {number : Nat} (done : 0 < db.throughSeq versionId) :
      IndexStep indexing db (.publishSite siteId versionId) (.started number) .finished db
  | starts {r : ContentRequest} {number : Nat} : IndexStep indexing db r (.started number) (.reading number) db
  | missing {r : ContentRequest} {number : Nat} (none : db.manifests r.versionId = .none) :
      IndexStep indexing db r (.reading number) .finished db
  | reads {r : ContentRequest} {number : Nat} {chunks : List (NewChunkInput ε)}
      (found : db.content indexing r.versionId = some chunks) :
      IndexStep indexing db r (.reading number) (.embedded number chunks) db
  | deletes {r : ContentRequest} {number : Nat} {chunks : List (NewChunkInput ε)} :
      IndexStep indexing db r (.embedded number chunks) (.replacing number db.batches chunks) db
  | replaceSkill {skillId versionId : Text} {manifest : IndexManifest} {number seen : Nat}
      {chunks : List (NewChunkInput ε)} :
      IndexStep indexing db (.finalizeSkill skillId versionId manifest) (.replacing number seen chunks) .finished
        (db.replaceContentChunks (.skill skillId) seen chunks)
  | replaceSite {siteId versionId : Text} {number seen : Nat} {chunks : List (NewChunkInput ε)} :
      IndexStep indexing db (.publishSite siteId versionId) (.replacing number seen chunks) .marking
        (db.replaceContentChunks (.siteVersion versionId) seen chunks)
  | marks {siteId versionId : Text} :
      IndexStep indexing db (.publishSite siteId versionId) .marking .finished (db.advanceMemoryIngest versionId)

theorem index_step {input : Unit} {r : ContentRequest} {stage : IndexStage ε} {after : IndexCall ε} {stored : ContentDb ε}
    (ran : indexRequests indexing input ⟨r, stage⟩ db = some (after, stored)) :
    after.request = r ∧ IndexStep indexing db r stage after.stage stored := by
  unfold indexRequests at ran
  obtain ⟨⟨moved, left⟩, next, same⟩ := Option.map_eq_some_iff.mp ran
  cases same
  refine ⟨rfl, ?_⟩
  cases stage with
  | requested =>
    cases r with
    | finalizeSite versionId manifest =>
      cases next
      exact .putSite
    | publishSite siteId versionId =>
      cases next
      exact .publishSite
    | finalizeSkill skillId versionId manifest =>
      cases next
      exact .putSkill
  | publishing =>
    cases r with
    | finalizeSkill skillId versionId manifest =>
      cases next
      exact .publishSkill
    | finalizeSite | publishSite => cases next
  | started number =>
    cases r with
    | publishSite siteId versionId =>
      rw [ContentRequest.next, ContentRequest.start] at next
      by_cases done : 0 < db.throughSeq versionId
      · rw [if_pos done] at next
        cases next
        exact .indexed done
      · rw [if_neg done] at next
        cases next
        exact .starts
    | finalizeSite | finalizeSkill =>
      cases next
      exact .starts
  | reading number =>
    rw [ContentRequest.next] at next
    cases found : db.manifests r.versionId with
    | none =>
      rw [found] at next
      cases next
      exact .missing found
    | some manifest =>
      rw [found] at next
      cases next
      exact .reads (congrArg (Option.map (indexManifest indexing)) found)
  | embedded number chunks =>
    cases next
    exact .deletes
  | replacing number seen chunks =>
    cases r with
    | finalizeSite => cases next
    | publishSite siteId versionId =>
      cases next
      exact .replaceSite
    | finalizeSkill skillId versionId manifest =>
      cases next
      exact .replaceSkill
  | marking =>
    cases r with
    | publishSite siteId versionId =>
      cases next
      exact .marks
    | finalizeSite | finalizeSkill => cases next
  | finished => cases r <;> cases next

/-! ### Runs -/

/-- The skill whose chunks the call has yet to replace, with the number of its
publication. -/
def IndexCall.awaits : IndexCall ε → Option (Text × Nat)
  | ⟨.finalizeSkill skillId _ _, .started number⟩ => some (skillId, number)
  | ⟨.finalizeSkill skillId _ _, .reading number⟩ => some (skillId, number)
  | ⟨.finalizeSkill skillId _ _, .embedded number _⟩ => some (skillId, number)
  | ⟨.finalizeSkill skillId _ _, .replacing number _ _⟩ => some (skillId, number)
  | _ => none

/-- What the pass has read and has yet to store. -/
def IndexStage.holds : IndexStage ε → Option (List (NewChunkInput ε))
  | .embedded _ chunks => some chunks
  | .replacing _ _ chunks => some chunks
  | _ => none

def IndexStage.running : IndexStage ε → Prop
  | .started _ | .reading _ | .embedded _ _ | .replacing _ _ _ => True
  | _ => False

def ContentRequest.puts : ContentRequest → Option IndexManifest
  | finalizeSite _ manifest => some manifest
  | publishSite _ _ => none
  | finalizeSkill _ _ manifest => some manifest

section Run

variable {κ : Type} [DecidableEq κ]

abbrev IndexState (κ ε : Type) := State κ (IndexCall ε) (ContentDb ε)

/-- No step fails, and a version keeps its manifest. -/
structure Steady (state : IndexState κ ε) (act : Act κ Unit) : Prop where
  reads : ∀ number, (state.position act.1).stage = .reading number →
    state.store.manifests (state.position act.1).request.versionId ≠ none
  puts : ∀ manifest old, (state.position act.1).stage = .requested →
    (state.position act.1).request.puts = some manifest →
    state.store.manifests (state.position act.1).request.versionId = some old → old = manifest

def steadyNow (state : IndexState κ ε) (act : Act κ Unit) : Bool :=
  match (state.position act.1).stage with
  | .reading _ => (state.store.manifests (state.position act.1).request.versionId).isSome
  | .requested => (state.position act.1).request.puts.all fun manifest =>
      (state.store.manifests (state.position act.1).request.versionId).all fun old => decide (old = manifest)
  | _ => true

omit [DecidableEq κ] in
theorem steadyNow_iff {state : IndexState κ ε} {act : Act κ Unit} : steadyNow state act = true ↔ Steady state act := by
  unfold steadyNow
  constructor
  · intro holds
    constructor
    · intro number reading
      rw [reading] at holds
      exact Option.isSome_iff_ne_none.mp holds
    · intro manifest old requested puts present
      rw [requested, puts, present] at holds
      exact of_decide_eq_true holds
  · rintro ⟨reads, puts⟩
    split
    · rename_i number reading
      exact Option.isSome_iff_ne_none.mpr (reads number reading)
    · rename_i requested
      cases put : (state.position act.1).request.puts with
      | none => rfl
      | some manifest =>
        cases present : state.store.manifests (state.position act.1).request.versionId with
        | none => rfl
        | some old => exact decide_eq_true (puts manifest old requested put present)
    · rfl

instance (state : IndexState κ ε) (act : Act κ Unit) : Decidable (Steady state act) :=
  decidable_of_iff _ steadyNow_iff

/-- A pass over a skill begins to replace its chunks when no pass of an earlier
publication has yet to do so. -/
def InOrder (state : IndexState κ ε) (act : Act κ Unit) : Prop :=
  ∀ number chunks skillId, (state.position act.1).stage = .embedded number chunks →
    (state.position act.1).awaits = some (skillId, number) →
    ∀ other earlier, (state.position other).awaits = some (skillId, earlier) → number ≤ earlier

/-- What a step leaves as it was. -/
structure Frames (indexing : Indexing ε) (db stored : ContentDb ε) : Prop where
  content : ∀ versionId chunks, db.content indexing versionId = some chunks →
    stored.content indexing versionId = some chunks
  batches : (∀ row ∈ db.chunks.rows, row.batch < db.batches) → ∀ row ∈ stored.chunks.rows, row.batch < stored.batches

theorem content_distinct {versionId : Text} {chunks : List (NewChunkInput ε)}
    (found : db.content indexing versionId = some chunks) : (chunks.map NewChunkInput.key).Nodup := by
  obtain ⟨manifest, -, rfl⟩ := Option.map_eq_some_iff.mp found
  exact indexManifest_distinct manifest

theorem content_put {versionId other : Text} {manifest : IndexManifest} {chunks : List (NewChunkInput ε)}
    (keeps : ∀ old, db.manifests versionId = some old → old = manifest)
    (found : db.content indexing other = some chunks) :
    (db.putManifest versionId manifest).content indexing other = some chunks := by
  obtain ⟨old, stored, rfl⟩ := Option.map_eq_some_iff.mp found
  refine Option.map_eq_some_iff.mpr ⟨old, ?_, rfl⟩
  simp only [putManifest]
  by_cases same : other = versionId
  · subst same
    rw [Function.update_self, keeps old stored]
  · rw [Function.update_of_ne same, stored]

private theorem batches_replace {source : ChunkSource} {seen : Nat} {chunks : List (NewChunkInput ε)}
    (distinct : (chunks.map NewChunkInput.key).Nodup) (before : ∀ row ∈ db.chunks.rows, row.batch < db.batches) :
    ∀ row ∈ (db.replaceContentChunks source seen chunks).chunks.rows, row.batch < db.batches + 1 := by
  intro row mem
  rcases (mem_replace distinct).mp mem with ⟨old, -⟩ | ⟨-, own, -⟩
  · exact Nat.lt_succ_of_lt (before row old)
  · exact own ▸ Nat.lt_succ_self _

theorem step_frames {r : ContentRequest} {stage moved : IndexStage ε} {stored : ContentDb ε}
    (held : ∀ chunks, stage.holds = some chunks → db.content indexing r.versionId = some chunks)
    (keeps : ∀ manifest old, stage = .requested → r.puts = some manifest →
      db.manifests r.versionId = some old → old = manifest)
    (step : IndexStep indexing db r stage moved stored) : Frames indexing db stored := by
  cases step with
  | putSite =>
    refine ⟨?_, id⟩
    intro versionId chunks found
    exact content_put (fun old present => keeps _ old rfl rfl present) found
  | putSkill =>
    refine ⟨?_, id⟩
    intro versionId chunks found
    exact content_put (fun old present => keeps _ old rfl rfl present) found
  | publishSite | publishSkill | indexed | starts | missing | reads | deletes | marks => exact ⟨fun _ _ => id, id⟩
  | replaceSkill => exact ⟨fun _ _ => id, batches_replace (content_distinct (held _ rfl))⟩
  | replaceSite => exact ⟨fun _ _ => id, batches_replace (content_distinct (held _ rfl))⟩

theorem perform_cases (state : IndexState κ ε) (act : Act κ Unit) :
    perform (indexRequests indexing) state act = state ∨
      ∃ moved stored, IndexStep indexing state.store (state.position act.1).request (state.position act.1).stage moved stored ∧
        perform (indexRequests indexing) state act =
          ⟨stored, Function.update state.position act.1 ⟨(state.position act.1).request, moved⟩⟩ := by
  cases ran : indexRequests indexing act.2 (state.position act.1) state.store with
  | none => exact .inl (perform_none ran)
  | some result =>
    obtain ⟨after, stored⟩ := result
    obtain ⟨same, step⟩ := index_step ran
    refine .inr ⟨after.stage, stored, step, ?_⟩
    rw [perform_some ran, ← same]

/-! ### The versions of sites -/

/-- The rows of a version are of its own content, so passes over it agree. -/
structure SiteRows (indexing : Indexing ε) (db : ContentDb ε) : Prop where
  rows : ∀ row ∈ db.chunks.rows, ∀ versionId, row.source = .siteVersion versionId →
    ∃ chunks, db.content indexing versionId = some chunks ∧ row.chunk ∈ chunks
  done : ∀ versionId, 0 < db.throughSeq versionId → Indexed indexing db (.siteVersion versionId) versionId

structure SitesKept (indexing : Indexing ε) (state : IndexState κ ε) : Prop where
  stored : SiteRows indexing state.store
  held : ∀ call chunks, (state.position call).stage.holds = some chunks →
    state.store.content indexing (state.position call).request.versionId = some chunks
  marking : ∀ call siteId versionId, state.position call = ⟨.publishSite siteId versionId, .marking⟩ →
    Indexed indexing state.store (.siteVersion versionId) versionId
  current : ∀ siteId versionId, state.store.currentSite siteId = some versionId →
    Indexed indexing state.store (.siteVersion versionId) versionId ∨
      ∃ call, (state.position call).request = .publishSite siteId versionId ∧ (state.position call).stage.running

theorem Indexed.of_stores {stored : ContentDb ε} {source : ChunkSource} {versionId : Text}
    (indexed : Indexed indexing db source versionId)
    (content : ∀ versionId chunks, db.content indexing versionId = some chunks →
      stored.content indexing versionId = some chunks)
    (stores : ∀ chunks, Stores db source chunks → Stores stored source chunks) :
    Indexed indexing stored source versionId := by
  obtain ⟨chunks, found, those⟩ := indexed
  exact ⟨chunks, content versionId chunks found, stores chunks those⟩

section Site

variable {r : ContentRequest} {stage moved : IndexStage ε} {stored : ContentDb ε}

/-- A pass leaves its version indexed. -/
theorem replaced_site (rows : SiteRows indexing db) {versionId : Text} {seen : Nat} {chunks : List (NewChunkInput ε)}
    (found : db.content indexing versionId = some chunks) :
    Indexed indexing (db.replaceContentChunks (.siteVersion versionId) seen chunks) (.siteVersion versionId) versionId := by
  refine ⟨chunks, found, stores_replace (content_distinct found) ?_⟩
  intro row mem own kept
  obtain ⟨content, same, among⟩ := rows.rows row mem versionId own
  have agree : content = chunks := Option.some.inj (same.symm.trans found)
  exact agree ▸ among

/-- A pass leaves the versions that have been indexed as they are. -/
theorem step_indexed_site (frames : Frames indexing db stored) (rows : SiteRows indexing db)
    (held : ∀ chunks, stage.holds = some chunks → db.content indexing r.versionId = some chunks)
    (step : IndexStep indexing db r stage moved stored) {versionId : Text}
    (indexed : Indexed indexing db (.siteVersion versionId) versionId) :
    Indexed indexing stored (.siteVersion versionId) versionId := by
  cases step with
  | putSite | putSkill | publishSite | publishSkill | indexed | starts | missing | reads | deletes | marks =>
    exact indexed.of_stores frames.content fun chunks => id
  | replaceSkill =>
    refine indexed.of_stores frames.content fun chunks => ?_
    exact (stores_other (content_distinct (held _ rfl)) (by intro same; cases same) chunks).mpr
  | @replaceSite siteId replaced number seen chunks =>
    by_cases same : versionId = replaced
    · subst same
      exact replaced_site rows (held chunks rfl)
    · refine indexed.of_stores frames.content fun chunks => ?_
      refine (stores_other (content_distinct (held _ rfl)) ?_ chunks).mpr
      intro equal
      cases equal
      exact same rfl

private theorem rows_replace_site {source : ChunkSource} {seen : Nat} {chunks : List (NewChunkInput ε)}
    (distinct : (chunks.map NewChunkInput.key).Nodup)
    (own : ∀ versionId, source = .siteVersion versionId → db.content indexing versionId = some chunks)
    (rows : SiteRows indexing db) {row : ContentChunk ε}
    (mem : row ∈ (db.replaceContentChunks source seen chunks).chunks.rows) {versionId : Text}
    (site : row.source = .siteVersion versionId) :
    ∃ content, db.content indexing versionId = some content ∧ row.chunk ∈ content := by
  rcases (mem_replace distinct).mp mem with ⟨old, -⟩ | ⟨same, -, among, -⟩
  · exact rows.rows row old versionId site
  · exact ⟨chunks, own versionId (same ▸ site), among⟩

theorem step_site_rows (frames : Frames indexing db stored) (rows : SiteRows indexing db)
    (held : ∀ chunks, stage.holds = some chunks → db.content indexing r.versionId = some chunks)
    (marking : ∀ siteId versionId, r = .publishSite siteId versionId → stage = .marking →
      Indexed indexing db (.siteVersion versionId) versionId)
    (step : IndexStep indexing db r stage moved stored) : SiteRows indexing stored := by
  constructor
  · intro row mem versionId site
    cases step with
    | putSite | putSkill | publishSite | publishSkill | indexed | starts | missing | reads | deletes | marks =>
      obtain ⟨content, found, among⟩ := rows.rows row mem versionId site
      exact ⟨content, frames.content versionId content found, among⟩
    | replaceSkill =>
      exact rows_replace_site (content_distinct (held _ rfl)) (fun _ same => by cases same) rows mem site
    | replaceSite =>
      refine rows_replace_site (content_distinct (held _ rfl)) ?_ rows mem site
      intro versionId same
      cases same
      exact held _ rfl
  · intro versionId done
    have before := @step_indexed_site _ _ _ _ _ _ _ frames rows held step versionId
    cases step with
    | putSite | putSkill | publishSite | publishSkill | indexed | starts | missing | reads | deletes | replaceSkill
    | replaceSite => exact before (rows.done versionId done)
    | @marks siteId marked =>
      by_cases same : versionId = marked
      · exact before (same ▸ marking siteId marked rfl rfl)
      · refine before (rows.done versionId ?_)
        simp only [advanceMemoryIngest, Function.update_of_ne same] at done
        exact done

end Site

omit [DecidableEq κ] in
private theorem steady_frames {state : IndexState κ ε} {act : Act κ Unit} {moved : IndexStage ε} {stored : ContentDb ε}
    (kept : SitesKept indexing state) (steady : Steady state act)
    (step : IndexStep indexing state.store (state.position act.1).request (state.position act.1).stage moved stored) :
    Frames indexing state.store stored :=
  step_frames (kept.held act.1) steady.puts step

/-- What a pass has read when it moves on. -/
private theorem step_held {r : ContentRequest} {stage moved : IndexStage ε} {stored : ContentDb ε}
    (frames : Frames indexing db stored)
    (held : ∀ chunks, stage.holds = some chunks → db.content indexing r.versionId = some chunks)
    (step : IndexStep indexing db r stage moved stored) {chunks : List (NewChunkInput ε)}
    (holds : moved.holds = some chunks) : stored.content indexing r.versionId = some chunks := by
  cases step with
  | putSite | putSkill | publishSite | publishSkill | indexed | starts | missing | replaceSkill | replaceSite | marks =>
    cases holds
  | reads found =>
    cases holds
    exact found
  | deletes =>
    cases holds
    exact held _ rfl

/-- A version that becomes current has its pass, and a pass that ends has indexed
its version. -/
private theorem step_current {r : ContentRequest} {stage moved : IndexStage ε} {stored : ContentDb ε}
    (rows : SiteRows indexing db)
    (held : ∀ chunks, stage.holds = some chunks → db.content indexing r.versionId = some chunks)
    (present : ∀ number, stage = .reading number → db.manifests r.versionId ≠ none)
    (step : IndexStep indexing db r stage moved stored) {siteId versionId : Text}
    (current : stored.currentSite siteId = some versionId) :
    (r = .publishSite siteId versionId ∧ moved.running) ∨
      db.currentSite siteId = some versionId ∧
        (r = .publishSite siteId versionId → stage.running →
          moved.running ∨ Indexed indexing stored (.siteVersion versionId) versionId) := by
  cases step with
  | putSite | putSkill | publishSkill | marks =>
    exact .inr ⟨current, fun _ running => running.elim⟩
  | starts | reads | deletes => exact .inr ⟨current, fun _ _ => .inl trivial⟩
  | replaceSkill =>
    refine .inr ⟨current, ?_⟩
    intro same
    cases same
  | @publishSite published live =>
    simp only [publishSite] at current
    by_cases same : siteId = published
    · subst same
      rw [Function.update_self] at current
      cases current
      exact .inl ⟨rfl, trivial⟩
    · rw [Function.update_of_ne same] at current
      exact .inr ⟨current, fun _ running => running.elim⟩
  | indexed done =>
    refine .inr ⟨current, ?_⟩
    intro same running
    cases same
    exact .inr (rows.done versionId done)
  | missing none => exact absurd none (present _ rfl)
  | replaceSite =>
    refine .inr ⟨current, ?_⟩
    intro same running
    cases same
    exact .inr (replaced_site rows (held _ rfl))

theorem sites_step (state : IndexState κ ε) (act : Act κ Unit) (kept : SitesKept indexing state)
    (steady : Steady state act) : SitesKept indexing (perform (indexRequests indexing) state act) := by
  rcases perform_cases state act with same | ⟨moved, stored, step, same⟩
  · rw [same]
    exact kept
  · rw [same]
    have frames := steady_frames kept steady step
    have indexed {versionId : Text} := @step_indexed_site _ _ _ _ _ _ _ frames kept.stored (kept.held act.1) step versionId
    refine ⟨?_, ?_, ?_, ?_⟩
    · refine step_site_rows frames kept.stored (kept.held act.1) ?_ step
      intro siteId versionId request stage
      refine kept.marking act.1 siteId versionId ?_
      rw [← request, ← stage]
    · intro call chunks holds
      by_cases own : call = act.1
      · subst own
        simp only [Function.update_self] at holds ⊢
        exact step_held frames (kept.held act.1) step holds
      · simp only [Function.update_of_ne own] at holds ⊢
        exact frames.content _ _ (kept.held call chunks holds)
    · intro call siteId versionId at_
      by_cases own : call = act.1
      · subst own
        simp only [Function.update_self, IndexCall.mk.injEq] at at_
        obtain ⟨request, marking⟩ := at_
        have rows := kept.stored
        have held := kept.held act.1
        generalize (state.position act.1).request = r at *
        generalize (state.position act.1).stage = stage at *
        subst request marking
        cases step with
        | replaceSite => exact replaced_site rows (held _ rfl)
      · simp only [Function.update_of_ne own] at at_
        exact indexed (kept.marking call siteId versionId at_)
    · intro siteId versionId current
      rcases step_current kept.stored (kept.held act.1) steady.reads step current with ⟨request, running⟩ | ⟨before, moves⟩
      · refine .inr ⟨act.1, ?_⟩
        simp only [Function.update_self]
        exact ⟨request, running⟩
      · rcases kept.current siteId versionId before with done | ⟨call, request, running⟩
        · exact .inl (indexed done)
        · by_cases own : call = act.1
          · subst own
            rcases moves request running with still | done
            · refine .inr ⟨act.1, ?_⟩
              simp only [Function.update_self]
              exact ⟨request, still⟩
            · exact .inl done
          · refine .inr ⟨call, ?_⟩
            simp only [Function.update_of_ne own]
            exact ⟨request, running⟩

/-! ### Skills -/

/-- The pass that replaces the chunks of a skill has seen all of them, and no
earlier one is to come. -/
def Alone (state : IndexState κ ε) (skillId : Text) (number seen : Nat) : Prop :=
  (∀ row ∈ state.store.chunks.rows, row.source = .skill skillId → row.batch < seen) ∧
    ∀ other earlier, (state.position other).awaits = some (skillId, earlier) → number ≤ earlier

structure SkillsOrdered (indexing : Indexing ε) (state : IndexState κ ε) : Prop where
  batches : ∀ row ∈ state.store.chunks.rows, row.batch < state.store.batches
  published : ∀ skillId publication, state.store.currentSkill skillId = some publication →
    publication.number < state.store.publications
  known : ∀ call skillId number, (state.position call).awaits = some (skillId, number) →
    ∃ publication, state.store.currentSkill skillId = some publication ∧ number ≤ publication.number
  unique : ∀ call other skillId number, (state.position call).awaits = some (skillId, number) →
    (state.position other).awaits = some (skillId, number) → call = other
  alone : ∀ call skillId number seen chunks, (state.position call).stage = .replacing number seen chunks →
    (state.position call).awaits = some (skillId, number) → Alone state skillId number seen
  latest : ∀ skillId publication, state.store.currentSkill skillId = some publication →
    (∃ call, (state.position call).awaits = some (skillId, publication.number) ∧
      (state.position call).request.versionId = publication.versionId) ∨
    (∀ call number, (state.position call).awaits ≠ some (skillId, number)) ∧
      Indexed indexing state.store (.skill skillId) publication.versionId

section Quiet

variable {state : IndexState κ ε} {call : κ} {after : IndexCall ε} {stored : ContentDb ε}

/-- A step that neither publishes a skill nor stores a skill's chunks. -/
theorem SkillsOrdered.quiet (ordered : SkillsOrdered indexing state)
    (awaits : after.awaits = (state.position call).awaits) (request : after.request = (state.position call).request)
    (current : stored.currentSkill = state.store.currentSkill)
    (publications : stored.publications = state.store.publications)
    (batches : ∀ row ∈ stored.chunks.rows, row.batch < stored.batches)
    (rows : ∀ row ∈ stored.chunks.rows, ∀ skillId, row.source = .skill skillId → row ∈ state.store.chunks.rows)
    (indexed : ∀ skillId versionId, Indexed indexing state.store (.skill skillId) versionId →
      Indexed indexing stored (.skill skillId) versionId)
    (begins : ∀ skillId number seen chunks, after.stage = .replacing number seen chunks →
      after.awaits = some (skillId, number) → Alone state skillId number seen) :
    SkillsOrdered indexing ⟨stored, Function.update state.position call after⟩ := by
  have same (other : κ) : (Function.update state.position call after other).awaits = (state.position other).awaits := by
    by_cases own : other = call
    · subst own
      rw [Function.update_self, awaits]
    · rw [Function.update_of_ne own]
  have still (other : κ) : (Function.update state.position call after other).request = (state.position other).request := by
    by_cases own : other = call
    · subst own
      rw [Function.update_self, request]
    · rw [Function.update_of_ne own]
  refine ⟨batches, ?_, ?_, ?_, ?_, ?_⟩
  · intro skillId publication found
    rw [current] at found
    rw [publications]
    exact ordered.published skillId publication found
  · intro other skillId number waits
    rw [same] at waits
    rw [current]
    exact ordered.known other skillId number waits
  · intro one two skillId number first second
    rw [same] at first second
    exact ordered.unique one two skillId number first second
  · intro other skillId number seen chunks replacing waits
    have before : Alone state skillId number seen := by
      by_cases own : other = call
      · subst own
        simp only [Function.update_self] at replacing waits
        exact begins skillId number seen chunks replacing waits
      · simp only [Function.update_of_ne own] at replacing waits
        exact ordered.alone other skillId number seen chunks replacing waits
    refine ⟨fun row mem own => before.1 row (rows row mem skillId own) own, ?_⟩
    intro third earlier waiting
    rw [same] at waiting
    exact before.2 third earlier waiting
  · intro skillId publication found
    rw [current] at found
    rcases ordered.latest skillId publication found with ⟨other, waits, version⟩ | ⟨none, done⟩
    · refine .inl ⟨other, ?_, ?_⟩
      · rw [same, waits]
      · rw [still, version]
    · refine .inr ⟨?_, indexed skillId _ done⟩
      intro other number
      rw [same]
      exact none other number

end Quiet

variable {state : IndexState κ ε} {call : κ}

/-- The publication of a skill is numbered after all before it. -/
theorem SkillsOrdered.publish (ordered : SkillsOrdered indexing state) {skillId versionId : Text} {manifest : IndexManifest}
    (before : (state.position call).awaits = none) :
    SkillsOrdered indexing ⟨state.store.publishSkill skillId versionId, Function.update state.position call
      ⟨.finalizeSkill skillId versionId manifest, .started state.store.publications⟩⟩ := by
  have less {other : κ} {otherId : Text} {number : Nat} (waits : (state.position other).awaits = some (otherId, number)) :
      number < state.store.publications := by
    obtain ⟨publication, found, atMost⟩ := ordered.known other otherId number waits
    exact atMost.trans_lt (ordered.published otherId publication found)
  have still {other : κ} (differ : other ≠ call) :
      Function.update state.position call (⟨.finalizeSkill skillId versionId manifest, .started state.store.publications⟩ :
        IndexCall ε) other = state.position other := Function.update_of_ne differ _ _
  refine ⟨ordered.batches, ?_, ?_, ?_, ?_, ?_⟩
  · intro published publication found
    simp only [publishSkill] at found ⊢
    by_cases same : published = skillId
    · rw [same, Function.update_self] at found
      cases found
      exact Nat.lt_succ_self _
    · rw [Function.update_of_ne same] at found
      exact Nat.lt_succ_of_lt (ordered.published published publication found)
  · intro other published number waits
    simp only [publishSkill] at waits ⊢
    by_cases own : other = call
    · subst own
      rw [Function.update_self] at waits
      cases waits
      exact ⟨_, Function.update_self _ _ _, le_rfl⟩
    · rw [still own] at waits
      by_cases same : published = skillId
      · subst same
        exact ⟨_, Function.update_self _ _ _, (less waits).le⟩
      · rw [Function.update_of_ne same]
        exact ordered.known other published number waits
  · intro one two published number first second
    simp only at first second
    by_cases own : one = call
    · by_cases too : two = call
      · exact own.trans too.symm
      · subst own
        rw [Function.update_self] at first
        rw [still too] at second
        cases first
        exact absurd (less second) (lt_irrefl _)
    · rw [still own] at first
      by_cases too : two = call
      · subst too
        rw [Function.update_self] at second
        cases second
        exact absurd (less first) (lt_irrefl _)
      · rw [still too] at second
        exact ordered.unique one two published number first second
  · intro other published number seen chunks replacing waits
    simp only at replacing waits
    by_cases own : other = call
    · subst own
      rw [Function.update_self] at replacing
      cases replacing
    · rw [still own] at replacing waits
      obtain ⟨rows, first⟩ := ordered.alone other published number seen chunks replacing waits
      refine ⟨rows, ?_⟩
      intro third earlier waiting
      simp only at waiting
      by_cases too : third = call
      · subst too
        rw [Function.update_self] at waiting
        cases waiting
        exact (less waits).le
      · rw [still too] at waiting
        exact first third earlier waiting
  · intro published publication found
    simp only [publishSkill] at found ⊢
    by_cases same : published = skillId
    · subst same
      rw [Function.update_self] at found
      cases found
      refine .inl ⟨call, ?_⟩
      rw [Function.update_self]
      exact ⟨rfl, rfl⟩
    · rw [Function.update_of_ne same] at found
      rcases ordered.latest published publication found with ⟨other, waits, version⟩ | ⟨none, done⟩
      · refine .inl ⟨other, ?_⟩
        have differ : other ≠ call := by
          rintro rfl
          rw [before] at waits
          cases waits
        rw [still differ]
        exact ⟨waits, version⟩
      · refine .inr ⟨?_, done⟩
        intro other number waits
        by_cases own : other = call
        · subst own
          rw [Function.update_self] at waits
          cases waits
          exact same rfl
        · rw [still own] at waits
          exact none other number waits

/-- A pass that is alone leaves its own chunks, and the last one the current ones. -/
theorem SkillsOrdered.replace (ordered : SkillsOrdered indexing state) {skillId versionId : Text} {manifest : IndexManifest}
    {number seen : Nat} {chunks : List (NewChunkInput ε)}
    (position : state.position call = ⟨.finalizeSkill skillId versionId manifest, .replacing number seen chunks⟩)
    (held : state.store.content indexing versionId = some chunks) :
    SkillsOrdered indexing ⟨state.store.replaceContentChunks (.skill skillId) seen chunks,
      Function.update state.position call ⟨.finalizeSkill skillId versionId manifest, .finished⟩⟩ := by
  have distinct := content_distinct held
  have own : (state.position call).awaits = some (skillId, number) := by rw [position]; rfl
  obtain ⟨rows, first⟩ := ordered.alone call skillId number seen chunks (by rw [position]) own
  have others {other : κ} {otherId : Text} {later : Nat}
      (waits : (Function.update state.position call
        (⟨.finalizeSkill skillId versionId manifest, .finished⟩ : IndexCall ε) other).awaits = some (otherId, later)) :
      other ≠ call ∧ (state.position other).awaits = some (otherId, later) := by
    by_cases same : other = call
    · subst same
      rw [Function.update_self] at waits
      cases waits
    · rw [Function.update_of_ne same] at waits
      exact ⟨same, waits⟩
  refine ⟨batches_replace distinct ordered.batches, ordered.published, ?_, ?_, ?_, ?_⟩
  · intro other otherId later waits
    exact ordered.known other otherId later (others waits).2
  · intro one two otherId later firstWaits secondWaits
    exact ordered.unique one two otherId later (others firstWaits).2 (others secondWaits).2
  · intro other otherId later otherSeen otherChunks replacing waits
    obtain ⟨differ, before⟩ := others waits
    simp only [Function.update_of_ne differ] at replacing
    obtain ⟨otherRows, otherFirst⟩ := ordered.alone other otherId later otherSeen otherChunks replacing before
    refine ⟨?_, fun third earlier waiting => otherFirst third earlier (others waiting).2⟩
    intro row mem skill
    rcases (mem_replace distinct).mp mem with ⟨old, -⟩ | ⟨same, -⟩
    · exact otherRows row old skill
    · -- Two passes over one skill are not both the first.
      rw [same] at skill
      cases skill
      have equal := Nat.le_antisymm (first other later before) (otherFirst call number own)
      subst equal
      exact absurd (ordered.unique other call skillId number before own) differ
  · intro published publication found
    have current : state.store.currentSkill published = some publication := found
    by_cases same : published = skillId
    · subst same
      rcases ordered.latest published publication current with ⟨other, waits, version⟩ | ⟨none, -⟩
      · by_cases mine : other = call
        · subst mine
          rw [own] at waits
          cases waits
          refine .inr ⟨?_, ?_⟩
          · intro third later waiting
            obtain ⟨differ, before⟩ := others waiting
            obtain ⟨known, again, atMost⟩ := ordered.known third published later before
            rw [current] at again
            cases again
            have equal := Nat.le_antisymm (first third later before) atMost
            rw [← equal] at before
            exact differ (ordered.unique third other published publication.number before own)
          · rw [position] at version
            refine ⟨chunks, version ▸ held, stores_replace distinct ?_⟩
            intro row mem skill stays
            exact absurd (rows row mem skill) stays
        · refine .inl ⟨other, ?_⟩
          simp only [Function.update_of_ne mine]
          exact ⟨waits, version⟩
      · exact absurd own (none call number)
    · rcases ordered.latest published publication current with ⟨other, waits, version⟩ | ⟨none, done⟩
      · have differ : other ≠ call := by
          rintro rfl
          rw [own] at waits
          cases waits
          exact same rfl
        refine .inl ⟨other, ?_⟩
        simp only [Function.update_of_ne differ]
        exact ⟨waits, version⟩
      · have differ : ChunkSource.skill published ≠ .skill skillId := fun equal => same (ChunkSource.skill.inj equal)
        have after : Indexed indexing (state.store.replaceContentChunks (.skill skillId) seen chunks)
            (.skill published) publication.versionId :=
          done.of_stores (fun _ _ => id) fun stored => (stores_other distinct differ stored).mpr
        exact .inr ⟨fun third later waiting => none third later (others waiting).2, after⟩

/-- A site's request, and a skill's that neither publishes nor replaces. -/
private theorem skills_quiet {r : ContentRequest} {stage moved : IndexStage ε} {stored : ContentDb ε}
    (ordered : SkillsOrdered indexing state) (position : state.position call = ⟨r, stage⟩)
    (frames : Frames indexing state.store stored)
    (rows : (∀ row ∈ stored.chunks.rows, ∀ skillId, row.source = .skill skillId → row ∈ state.store.chunks.rows) ∧
      ∀ skillId versionId, Indexed indexing state.store (.skill skillId) versionId →
        Indexed indexing stored (.skill skillId) versionId)
    (awaits : (⟨r, moved⟩ : IndexCall ε).awaits = (⟨r, stage⟩ : IndexCall ε).awaits)
    (current : stored.currentSkill = state.store.currentSkill)
    (publications : stored.publications = state.store.publications)
    (begins : ∀ skillId number seen chunks, moved = .replacing number seen chunks →
      (⟨r, moved⟩ : IndexCall ε).awaits = some (skillId, number) → Alone state skillId number seen) :
    SkillsOrdered indexing ⟨stored, Function.update state.position call ⟨r, moved⟩⟩ := by
  refine ordered.quiet ?_ ?_ current publications (frames.batches ordered.batches) rows.1 rows.2 begins
  · rw [awaits, position]
  · rw [position]

theorem skills_own {r : ContentRequest} {stage moved : IndexStage ε} {stored : ContentDb ε}
    (ordered : SkillsOrdered indexing state) (position : state.position call = ⟨r, stage⟩)
    (frames : Frames indexing state.store stored)
    (held : ∀ chunks, stage.holds = some chunks → state.store.content indexing r.versionId = some chunks)
    (present : ∀ number, stage = .reading number → state.store.manifests r.versionId ≠ none)
    (inOrder : ∀ number chunks skillId, stage = .embedded number chunks →
      (⟨r, stage⟩ : IndexCall ε).awaits = some (skillId, number) →
      ∀ other earlier, (state.position other).awaits = some (skillId, earlier) → number ≤ earlier)
    (step : IndexStep indexing state.store r stage moved stored) :
    SkillsOrdered indexing ⟨stored, Function.update state.position call ⟨r, moved⟩⟩ := by
  have unchanged (same : stored.chunks = state.store.chunks) :
      (∀ row ∈ stored.chunks.rows, ∀ skillId, row.source = .skill skillId → row ∈ state.store.chunks.rows) ∧
        ∀ skillId versionId, Indexed indexing state.store (.skill skillId) versionId →
          Indexed indexing stored (.skill skillId) versionId := by
    refine ⟨fun row mem _ _ => same ▸ mem, fun skillId versionId indexed => ?_⟩
    refine indexed.of_stores frames.content fun chunks stores => ?_
    rw [Stores, same]
    exact stores
  cases step with
  | putSite | putSkill | publishSite | indexed | marks =>
    exact skills_quiet ordered position frames (unchanged rfl) rfl rfl rfl (fun _ _ _ _ same => by cases same)
  | starts =>
    refine skills_quiet ordered position frames (unchanged rfl) ?_ rfl rfl (fun _ _ _ _ same => by cases same)
    cases r <;> rfl
  | missing none => exact absurd none (present _ rfl)
  | reads =>
    refine skills_quiet ordered position frames (unchanged rfl) ?_ rfl rfl (fun _ _ _ _ same => by cases same)
    cases r <;> rfl
  | @deletes _ number chunks =>
    have awaits : (⟨r, .replacing number state.store.batches chunks⟩ : IndexCall ε).awaits =
        (⟨r, .embedded number chunks⟩ : IndexCall ε).awaits := by
      cases r <;> rfl
    refine skills_quiet ordered position frames (unchanged rfl) awaits rfl rfl ?_
    intro skillId later seen replaced same waits
    cases same
    rw [awaits] at waits
    exact ⟨fun row mem _ => ordered.batches row mem, inOrder number chunks skillId rfl waits⟩
  | publishSkill => exact ordered.publish (by rw [position]; rfl)
  | replaceSkill => exact ordered.replace position (held _ rfl)
  | replaceSite =>
    have distinct := content_distinct (held _ rfl)
    refine skills_quiet ordered position frames ⟨?_, ?_⟩ rfl rfl rfl (fun _ _ _ _ same => by cases same)
    · intro row mem skillId skill
      rcases (mem_replace distinct).mp mem with ⟨old, -⟩ | ⟨same, -⟩
      · exact old
      · rw [same] at skill
        cases skill
    · intro skillId versionId indexed
      refine indexed.of_stores frames.content fun chunks => ?_
      exact (stores_other distinct (by intro same; cases same) chunks).mpr

theorem skills_step (state : IndexState κ ε) (act : Act κ Unit) (sites : SitesKept indexing state)
    (ordered : SkillsOrdered indexing state) (steady : Steady state act) (inOrder : InOrder state act) :
    SkillsOrdered indexing (perform (indexRequests indexing) state act) := by
  rcases perform_cases state act with same | ⟨moved, stored, step, same⟩
  · rw [same]
    exact ordered
  · rw [same]
    exact skills_own ordered rfl (steady_frames sites steady step) (sites.held act.1) steady.reads inOrder step

/-! ### From the start -/

/-- Nothing has been published. -/
def ContentDb.empty : ContentDb ε :=
  ⟨fun _ => none, fun _ => none, fun _ => none, 0, .empty, 0, fun _ => 0⟩

/-- Requests that have yet to begin. -/
def arriving (requests : κ → ContentRequest) : IndexState κ ε :=
  ⟨.empty, fun call => ⟨requests call, .requested⟩⟩

/-- Every publish that has begun has had its pass, and no pass is under way. -/
def AtRest (state : IndexState κ ε) : Prop :=
  ∀ call, (state.position call).stage = .requested ∨ (state.position call).stage = .finished

omit [DecidableEq κ] in
theorem sites_arriving (requests : κ → ContentRequest) : SitesKept indexing (arriving requests) := by
  refine ⟨⟨?_, ?_⟩, ?_, ?_, ?_⟩
  · intro row mem
    cases mem
  · intro versionId done
    cases done
  · intro call chunks holds
    cases holds
  · intro call siteId versionId marking
    cases (IndexCall.mk.inj marking).2
  · intro siteId versionId current
    cases current

omit [DecidableEq κ] in
theorem skills_arriving (requests : κ → ContentRequest) : SkillsOrdered indexing (arriving requests) := by
  have idle (call : κ) (skillId : Text) (number : Nat) :
      ((arriving requests : IndexState κ ε).position call).awaits ≠ some (skillId, number) := by
    simp only [arriving]
    cases requests call <;> exact fun waits => by cases waits
  refine ⟨?_, ?_, ?_, ?_, ?_, ?_⟩
  · intro row mem
    cases mem
  · intro skillId publication current
    cases current
  · intro call skillId number waits
    exact absurd waits (idle call skillId number)
  · intro call other skillId number waits
    exact absurd waits (idle call skillId number)
  · intro call skillId number seen chunks replacing waits
    exact absurd waits (idle call skillId number)
  · intro skillId publication current
    cases current

omit [DecidableEq κ] in
theorem settled_idle {state : IndexState κ ε} (settled : AtRest state) (call : κ) :
    (state.position call).awaits = none ∧ ¬ (state.position call).stage.running := by
  have resting := settled call
  generalize state.position call = position at resting ⊢
  obtain ⟨r, stage⟩ := position
  rcases resting with same | same <;> cases same <;> cases r <;> exact ⟨rfl, id⟩

end Run

/-! ### An upload that is overtaken -/

/-- A blob is its name, and a file is one piece. -/
private def blobs : Indexing Unit :=
  ⟨fun sha256 => some (sha256.map fun c => UInt8.ofNat c.toNat), fun _ data => [data.map fun b => Char.ofNat b.toNat],
    fun _ => ()⟩

private def uploaded (versionId sha256 : String) : ContentRequest :=
  .finalizeSkill "skill".toList versionId.toList ⟨[("a.md".toList, ⟨sha256.toList, 1⟩)], List.nodup_singleton _⟩

private def uploads : Bool → ContentRequest
  | false => uploaded "v1" "old"
  | true => uploaded "v2" "new"

/-- The pass over the first version has embedded it when the second is uploaded and
indexed; it then replaces the chunks of the second. -/
private def overtaken : List (Act Bool Unit) :=
  List.replicate 4 (false, ()) ++ List.replicate 6 (true, ()) ++ List.replicate 2 (false, ())

end Dropway.Api
