import Dropway.Proofs.StorageSteps

/-! A pass over the blobs that stops before it releases the ledger leaves rows
of blobs that are gone, and no later pass sees these. -/

namespace Dropway.Api
open Lib
open Lib.ReadCommitted (Session)

variable {hash : Sha256} {quota : StorageQuota} {org : OrgStorage} {policy : GCPolicy}
  {selected now : Instant} {input : Input} {effect : Effect Change LockKey}

section Alone

/-- Where a pass over `org` that works alone has come to. -/
def PassAt (hash : Sha256) (quota : StorageQuota) (org : OrgStorage) (policy : GCPolicy)
    (store : OrgStorage) (pending : List Change) : Collecting → Prop
  | .listVersions current => current = policy ∧ store = org ∧ pending = []
  | .listSkillVersions current retained =>
    current = policy ∧ store = org ∧ pending = [] ∧
      ∃ selected, retained = selectRetained org.listVersionsForGC policy.keepLastN selected
  | .readManifests current _ keys referenced =>
    current = policy ∧ store = org ∧ pending = [] ∧ ∃ selected done,
      org.retainedManifests policy selected = done ++ keys ∧ referenced = done.flatMap org.references
  | .deleteBlobs deleted rest =>
    pending = [] ∧ store = org.deleteBlobs deleted ∧
      ∃ selected now, org.gcDeletes policy selected now = deleted ++ rest
  | .deleteOrgBlobs deleted rest freed =>
    store = org.deleteBlobs deleted ∧ (∃ selected now, org.gcDeletes policy selected now = deleted) ∧
      ∃ done, deleted = done ++ rest ∧
        ((storageServer hash quota).applyAll pending store, freed) =
          done.foldl OrgStorage.deleteOrgBlob (store, 0)
  | .releaseCommit deleted =>
    store = org.deleteBlobs deleted ∧ (∃ selected now, org.gcDeletes policy selected now = deleted) ∧
      (storageServer hash quota).applyAll pending store = store.releaseStorageForBlobs deleted
  | .collected => pending = [] ∧ ∃ selected now, store = org.gcOrg policy selected now
  | .failed =>
    pending = [] ∧ ∃ selected now deletions, store = org.gcStopped policy selected now deletions

def PassInvariant (hash : Sha256) (quota : StorageQuota) (org : OrgStorage) (policy : GCPolicy)
    (reached : OrgStorage × Session Change StorageRequest) : Prop :=
  ∃ collecting, reached.2.position = .collect collecting ∧
    PassAt hash quota org policy reached.1 reached.2.pending collecting

private theorem gcStopped_take {deleted rest : List Text}
    (deletes : org.gcDeletes policy selected now = deleted ++ rest) :
    org.gcStopped policy selected now deleted.length = org.deleteBlobs deleted := by
  rw [OrgStorage.gcStopped, deletes, List.take_left']
  rfl

private theorem gcStopped_whole {deleted : List Text} (deletes : org.gcDeletes policy selected now = deleted) :
    org.gcStopped policy selected now deleted.length = org.deleteBlobs deleted :=
  gcStopped_take (deletes.trans (List.append_nil deleted).symm)

private theorem deleteBlobs_concat (shas : List Text) (sha : Text) :
    org.deleteBlobs (shas ++ [sha]) = (Change.deleteBlob sha).apply (org.deleteBlobs shas) := by
  rw [OrgStorage.deleteBlobs, List.foldl_append]
  rfl

private theorem metered_none {sha : Text} (absent : org.orgBlobs.get? sha = none) (freed : Nat) :
    OrgStorage.deleteOrgBlob (org, freed) sha = (org, freed) := by
  have same : (org.orgBlobs.delete fun row => row.contentHash = sha) = org.orgBlobs := by
    have kept : org.orgBlobs.rows.filter (fun row => !decide (row.contentHash = sha)) = org.orgBlobs.rows := by
      rw [List.filter_eq_self]
      intro row mem
      simpa using Table.get?_eq_none.mp absent row mem
    cases orgBlobs : org.orgBlobs with
    | mk rows nodup =>
      rw [orgBlobs] at kept
      simp only [Table.delete, kept]
  simp only [OrgStorage.deleteOrgBlob, Change.apply, same, OrgStorage.metered, absent, Option.map_none,
    Option.getD_none, Nat.add_zero]

private theorem metered_some {sha : Text} {row : OrgBlob} (present : org.orgBlobs.get? sha = some row) :
    org.metered sha = row.sizeBytes := by
  rw [OrgStorage.metered, present]
  rfl

private theorem applyAll_concat (hash : Sha256) (quota : StorageQuota) (pending : List Change)
    (change : Change) : (storageServer hash quota).applyAll (pending ++ [change]) org =
      change.apply ((storageServer hash quota).applyAll pending org) :=
  Server.applyAll_append _ _ _ _

private theorem pass_step {store : OrgStorage} {session : Session Change StorageRequest} {position : StorageRequest}
    (invariant : PassInvariant hash quota org policy (store, session))
    (ran : session.position.next hash quota input ((storageServer hash quota).view store session) =
      some (effect, position)) : PassInvariant hash quota org policy
      ((storageServer hash quota).store store session.pending effect, ⟨position, Server.pending session.pending effect⟩) := by
  obtain ⟨collecting, here, invariant⟩ := invariant
  obtain ⟨request, pending⟩ := session
  obtain rfl : request = .collect collecting := here
  obtain ⟨next, step, rfl⟩ := StorageRequest.next_collect ran
  simp only at invariant
  refine ⟨next, rfl, ?_⟩
  cases collecting with
  | listVersions current =>
    obtain ⟨rfl, rfl, rfl⟩ := invariant
    cases step
    exact ⟨rfl, rfl, rfl, input.now, rfl⟩
  | listSkillVersions current retained =>
    obtain ⟨rfl, rfl, rfl, selected, rfl⟩ := invariant
    cases step
    exact ⟨rfl, rfl, rfl, selected, [], rfl, rfl⟩
  | readManifests current now keys referenced =>
    obtain ⟨rfl, rfl, rfl, selected, done, split_, rfl⟩ := invariant
    cases keys with
    | nil =>
      simp only [Collecting.next] at step
      split at step
      · cases step
        exact ⟨rfl, selected, now, 0, rfl⟩
      · have orphans : store.gcOrphans current selected now =
            store.orphans current now (done.flatMap store.references) := by
          rw [OrgStorage.gcOrphans, split_, List.append_nil]
        cases step
        split
        · rename_i dry
          refine ⟨rfl, selected, now, ?_⟩
          rw [OrgStorage.gcOrg, OrgStorage.gcDeletes, if_pos dry]
          rfl
        · rename_i wet
          refine ⟨rfl, rfl, selected, now, ?_⟩
          rw [OrgStorage.gcDeletes, if_neg wet, orphans]
          rfl
    | cons key keys =>
      simp only [Collecting.next] at step
      split at step
      · cases step
        exact ⟨rfl, selected, now, 0, rfl⟩
      · cases step
        refine ⟨rfl, rfl, rfl, selected, done ++ [key], by rw [split_, List.append_cons], ?_⟩
        rw [List.flatMap_append, List.flatMap_singleton]
        rfl
  | deleteBlobs deleted rest =>
    obtain ⟨rfl, rfl, selected, now, deletes⟩ := invariant
    cases rest with
    | nil =>
      rw [List.append_nil] at deletes
      cases step
      unfold Collecting.release
      split
      · rename_i none
        subst none
        refine ⟨rfl, selected, now, ?_⟩
        rw [OrgStorage.gcOrg, deletes]
        rfl
      · exact ⟨rfl, ⟨selected, now, deletes⟩, [], rfl, rfl⟩
    | cons sha rest =>
      simp only [Collecting.next] at step
      split at step
      · cases step
        exact ⟨rfl, selected, now, deleted.length, (gcStopped_take deletes).symm⟩
      · cases step
        refine ⟨rfl, (deleteBlobs_concat deleted sha).symm, selected, now, ?_⟩
        rw [deletes, List.append_cons]
  | deleteOrgBlobs deleted rest freed =>
    obtain ⟨rfl, found, done, split_, released⟩ := invariant
    cases rest with
    | nil =>
      rw [List.append_nil] at split_
      subst split_
      have whole : (org.deleteBlobs deleted).releaseStorageForBlobs deleted = OrgStorage.subStorage
          ((storageServer hash quota).applyAll pending (org.deleteBlobs deleted), freed) := by
        rw [OrgStorage.releaseStorageForBlobs, ← released]
      simp only [Collecting.next] at step
      split at step
      · rename_i none
        rw [OrgStorage.subStorage, if_pos none] at whole
        cases step
        exact ⟨rfl, found, whole.symm⟩
      · rename_i some
        rw [OrgStorage.subStorage, if_neg some] at whole
        cases step
        exact ⟨rfl, found, (applyAll_concat hash quota pending _).trans whole.symm⟩
    | cons sha rest =>
      have more : (done ++ [sha]).foldl OrgStorage.deleteOrgBlob (org.deleteBlobs deleted, 0) =
          OrgStorage.deleteOrgBlob
            ((storageServer hash quota).applyAll pending (org.deleteBlobs deleted), freed) sha := by
        rw [List.foldl_append, ← released]
        rfl
      simp only [Collecting.next] at step
      split at step
      · rename_i absent
        cases step
        refine ⟨rfl, found, done ++ [sha], by rw [split_, List.append_cons], Eq.trans ?_ more.symm⟩
        exact (metered_none absent freed).symm
      · rename_i row present
        cases step
        refine ⟨rfl, found, done ++ [sha], by rw [split_, List.append_cons], Eq.trans ?_ more.symm⟩
        refine Prod.ext (applyAll_concat hash quota pending _) ?_
        exact congrArg (freed + ·) (metered_some present).symm
  | releaseCommit deleted =>
    obtain ⟨rfl, ⟨selected, now, rfl⟩, released⟩ := invariant
    cases step
    exact ⟨rfl, selected, now, released⟩
  | collected => cases step
  | failed => cases step

/-- A pass that works alone, wherever it stops, has deleted some of its orphans
and released nothing, or has done it all. -/
theorem pass_alone (hash : Sha256) (quota : StorageQuota) (org : OrgStorage) (policy : GCPolicy)
    (inputs : Nat → Input) (n : Nat) : ∃ selected now,
      let reached := (storageServer hash quota).solo inputs (org, ⟨.collect (.listVersions policy), []⟩) n
      (∃ deletions, reached.1 = org.gcStopped policy selected now deletions) ∨
        reached.1 = org.gcOrg policy selected now := by
  have invariant : PassInvariant hash quota org policy ((storageServer hash quota).solo inputs
      (org, ⟨.collect (.listVersions policy), []⟩) n) :=
    (storageServer hash quota).solo_invariant ⟨_, rfl, rfl, rfl, rfl⟩
      (fun invariant ran => pass_step invariant ran) n
  generalize (storageServer hash quota).solo inputs (org, ⟨.collect (.listVersions policy), []⟩) n =
    reached at invariant
  obtain ⟨store, session⟩ := reached
  obtain ⟨collecting, -, invariant⟩ := invariant
  cases collecting with
  | listVersions current => exact ⟨0, 0, .inl ⟨0, invariant.2.1⟩⟩
  | listSkillVersions current retained => exact ⟨0, 0, .inl ⟨0, invariant.2.1⟩⟩
  | readManifests current now keys referenced => exact ⟨0, 0, .inl ⟨0, invariant.2.1⟩⟩
  | deleteBlobs deleted rest =>
    obtain ⟨-, rfl, selected, now, deletes⟩ := invariant
    exact ⟨selected, now, .inl ⟨deleted.length, (gcStopped_take deletes).symm⟩⟩
  | deleteOrgBlobs deleted rest freed =>
    obtain ⟨rfl, ⟨selected, now, deletes⟩, -⟩ := invariant
    exact ⟨selected, now, .inl ⟨deleted.length, (gcStopped_whole deletes).symm⟩⟩
  | releaseCommit deleted =>
    obtain ⟨rfl, ⟨selected, now, deletes⟩, -⟩ := invariant
    exact ⟨selected, now, .inl ⟨deleted.length, (gcStopped_whole deletes).symm⟩⟩
  | collected =>
    obtain ⟨-, selected, now, rfl⟩ := invariant
    exact ⟨selected, now, .inr rfl⟩
  | failed =>
    obtain ⟨-, selected, now, deletions, rfl⟩ := invariant
    exact ⟨selected, now, .inl ⟨deletions, rfl⟩⟩

end Alone

/-- The bytes of the metered blobs that are there. -/
def OrgStorage.storedSum (org : OrgStorage) : Nat :=
  ((org.orgBlobs.filter fun row => (org.blobs.get? row.contentHash).isSome).map OrgBlob.sizeBytes).sum

private theorem deleteBlobs_orgBlobs (shas : List Text) : (org.deleteBlobs shas).orgBlobs = org.orgBlobs := by
  induction shas generalizing org with
  | nil => rfl
  | cons sha rest ih => exact ih

private theorem deleteBlobs_get? (shas : List Text) (key : Text) :
    (org.deleteBlobs shas).blobs.get? key = if key ∈ shas then none else org.blobs.get? key := by
  induction shas generalizing org with
  | nil => rfl
  | cons sha rest ih =>
    have first : ((Change.deleteBlob sha).apply org).blobs.get? key =
        if key = sha then none else org.blobs.get? key := by
      simp only [Change.apply, Table.get?_delete]
      cases found : org.blobs.get? key with
      | none => simp
      | some blob =>
        have keyed := Table.get?_key found
        by_cases same : key = sha <;> simp [keyed, same]
    have later : (org.deleteBlobs (sha :: rest)).blobs.get? key =
        if key ∈ rest then none else ((Change.deleteBlob sha).apply org).blobs.get? key := ih
    rw [later, first]
    by_cases mem : key ∈ rest <;> by_cases same : key = sha <;> simp [mem, same]

private theorem foldl_deleteOrgBlob (org : OrgStorage) (shas : List Text) (freed : Nat) :
    (shas.foldl OrgStorage.deleteOrgBlob (org, freed)).1.blobs = org.blobs ∧
      ∀ row, row ∈ (shas.foldl OrgStorage.deleteOrgBlob (org, freed)).1.orgBlobs.rows ↔
        row ∈ org.orgBlobs.rows ∧ row.contentHash ∉ shas := by
  induction shas generalizing org freed with
  | nil => exact ⟨rfl, fun row => by simp⟩
  | cons sha rest ih =>
    obtain ⟨blobs, rows⟩ := ih ((Change.dropOrgBlob sha).apply org) (freed + org.metered sha)
    refine ⟨blobs, fun row => (rows row).trans ?_⟩
    simp only [Change.apply, Table.mem_delete, decide_eq_false_iff_not, List.mem_cons, not_or, and_assoc]

private theorem release_kept (shas : List Text) :
    (org.releaseStorageForBlobs shas).blobs = org.blobs ∧
      ∀ row, row ∈ (org.releaseStorageForBlobs shas).orgBlobs.rows ↔
        row ∈ org.orgBlobs.rows ∧ row.contentHash ∉ shas := by
  have kept := foldl_deleteOrgBlob org shas 0
  unfold OrgStorage.releaseStorageForBlobs OrgStorage.subStorage
  split
  · exact kept
  · exact kept

private theorem gcDeletes_present {sha : Text} (mem : sha ∈ org.gcDeletes policy selected now) :
    (org.blobs.get? sha).isSome := by
  unfold OrgStorage.gcDeletes at mem
  split at mem
  · cases mem
  · rw [OrgStorage.gcOrphans, OrgStorage.orphans, List.mem_insertionSort] at mem
    obtain ⟨blob, found, rfl⟩ := List.mem_map.mp mem
    rw [Table.mem_iff_get?.mp (Table.mem_filter.mp found).1]
    rfl

/-- What a pass leaves: it is silent about the rows of blobs that are gone. -/
private theorem gcOrg_row (row : OrgBlob) : row ∈ (org.gcOrg policy selected now).orgBlobs.rows ↔
    row ∈ org.orgBlobs.rows ∧ row.contentHash ∉ org.gcDeletes policy selected now := by
  rw [OrgStorage.gcOrg, (release_kept _).2, deleteBlobs_orgBlobs]

private theorem gcOrg_blob (key : Text) : (org.gcOrg policy selected now).blobs.get? key =
    if key ∈ org.gcDeletes policy selected now then none else org.blobs.get? key := by
  rw [OrgStorage.gcOrg, (release_kept _).1, deleteBlobs_get?]

private theorem sum_filter {ρ : Type} (rows : List ρ) (p : ρ → Bool) (size : ρ → Nat) :
    (rows.map size).sum = ((rows.filter p).map size).sum ↔ ∀ row ∈ rows, p row = false → size row = 0 := by
  have le : ∀ rows : List ρ, ((rows.filter p).map size).sum ≤ (rows.map size).sum := by
    intro rows
    induction rows with
    | nil => exact Nat.le_refl _
    | cons row rest ih =>
      rw [List.filter_cons]
      split <;> simp only [List.map_cons, List.sum_cons] <;> omega
  induction rows with
  | nil => simp
  | cons row rest ih =>
    cases kept : p row with
    | true =>
      simp only [List.filter_cons, kept, if_true, List.map_cons, List.sum_cons, Nat.add_left_cancel_iff, ih,
        List.forall_mem_cons, Bool.true_eq_false, false_implies, true_and]
    | false =>
      have bound := le rest
      simp only [List.filter_cons, kept, Bool.false_eq_true, if_false, List.map_cons, List.sum_cons,
        List.forall_mem_cons, true_implies, ← ih]
      omega

/-- A pass that stops, then a whole pass, then the recomputation: the counter is
the sum of what is stored just if no metered bytes were missing from the store
before, and the pass that stopped has deleted none. -/
theorem meter_recovers_iff (org : OrgStorage) (first second : GCPolicy)
    (selected now selectedLater later : Instant) (deletions : Nat) :
    let stopped := org.gcStopped first selected now deletions
    let recovered := (stopped.gcOrg second selectedLater later).recomputeOrgStorage
    recovered.storageBytes = recovered.storedSum ↔
      ∀ row ∈ org.orgBlobs.rows, 0 < row.sizeBytes → (org.blobs.get? row.contentHash).isSome ∧
        row.contentHash ∉ (org.gcDeletes first selected now).take deletions := by
  intro stopped recovered
  have ledger : stopped.orgBlobs = org.orgBlobs := deleteBlobs_orgBlobs _
  have there : ∀ sha, (stopped.blobs.get? sha).isSome ↔ (org.blobs.get? sha).isSome ∧
      sha ∉ (org.gcDeletes first selected now).take deletions := by
    intro sha
    rw [show stopped.blobs.get? sha = _ from deleteBlobs_get? _ sha]
    by_cases gone : sha ∈ (org.gcDeletes first selected now).take deletions <;> simp [gone]
  have rows : ∀ row, row ∈ recovered.orgBlobs.rows ↔ row ∈ org.orgBlobs.rows ∧
      row.contentHash ∉ stopped.gcDeletes second selectedLater later := fun row => by
    rw [show row ∈ recovered.orgBlobs.rows ↔ _ from gcOrg_row row, ledger]
  have blobs : ∀ sha, recovered.blobs.get? sha =
      if sha ∈ stopped.gcDeletes second selectedLater later then none else stopped.blobs.get? sha :=
    gcOrg_blob
  rw [show recovered.storageBytes = (recovered.orgBlobs.rows.map OrgBlob.sizeBytes).sum from rfl,
    OrgStorage.storedSum, Table.filter, sum_filter]
  constructor
  · intro none row mem charged
    by_contra missing
    rw [← there] at missing
    -- A row of a blob that is gone outlives the second pass.
    have kept : row.contentHash ∉ stopped.gcDeletes second selectedLater later := fun deleted =>
      missing (gcDeletes_present deleted)
    have zero := none row ((rows row).mpr ⟨mem, kept⟩) (by rw [blobs, if_neg kept]; simpa using missing)
    omega
  · intro all row mem absent
    obtain ⟨before, kept⟩ := (rows row).mp mem
    rw [blobs, if_neg kept] at absent
    by_contra charged
    have present := (there row.contentHash).mpr (all row before (by omega))
    rw [present] at absent
    cases absent

/-! A metered blob that no version refers to. -/

def staleStorage : OrgStorage where
  planTier := "free".toList
  skillsSeeded := false
  sites := .empty
  siteVersions := .empty
  skills := .empty
  skillVersions := .empty
  orgBlobs := .singleton ⟨['b'], 2⟩
  storageBytes := 2
  blobs := .singleton ⟨['b'], [104, 105], none⟩
  manifests := .empty

def keepFive : GCPolicy := ⟨5, 0, false⟩

/-- The blob is deleted, and its bytes stay charged. -/
theorem stale_bytes_charged :
    let recovered := ((staleStorage.gcStopped keepFive 0 0 1).gcOrg keepFive 0 0).recomputeOrgStorage
    recovered.storageBytes ≠ recovered.storedSum := by
  decide

end Dropway.Api
