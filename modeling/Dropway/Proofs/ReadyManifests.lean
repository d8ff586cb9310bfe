import Dropway.Proofs.StorageSteps
import Dropway.Proofs.VersionNumbers

/-! A version row is committed before its manifest is written, and any row of a
site can be published. Where every manifest that is owed is written in the end,
every published version has one. -/

namespace Dropway.Api
open Lib
open Lib.ReadCommitted (Session State)

variable {hash : Sha256} {quota : StorageQuota} {org start : OrgStorage} {key : ManifestKey}
  {change : Change} {changes : List Change} {session other : Session Change StorageRequest}
  {position : StorageRequest} {input : Input} {effect : Effect Change LockKey}
  {state next final : State OrgStorage Change StorageRequest}

def VersionRow.manifestKey (version : VersionRow) : ManifestKey := .site version.siteId version.id

def Manifest.Stored (org : OrgStorage) (key : ManifestKey) : Prop := (org.manifests.get? key).isSome

/-- There is a version row with its manifest under the key. -/
def Listed (org : OrgStorage) (key : ManifestKey) : Prop :=
  ∃ version ∈ org.siteVersions.rows, version.manifestKey = key

/-- The versions that are ready or live have their manifests. -/
structure Servable (org : OrgStorage) : Prop where
  ready : ∀ version ∈ org.siteVersions.rows, version.status = .ready →
    Manifest.Stored org version.manifestKey
  published : ∀ site ∈ org.sites.rows, ∀ versionId, site.currentVersionId = some versionId →
    Manifest.Stored org (.site site.id versionId)

/-- Every live pointer is one to a version of its site. -/
def Pointed (org : OrgStorage) : Prop :=
  ∀ site ∈ org.sites.rows, ∀ versionId, site.currentVersionId = some versionId →
    Listed org (.site site.id versionId)

/-- The manifest that a request has to write for a committed version. -/
def StorageRequest.owes : StorageRequest → Option ManifestKey
  | .finalize (.create _ (.returned _ version)) => some version.manifestKey
  | .finalize (.putManifest _ version) => some version.manifestKey
  | _ => none

def Owed (state : State OrgStorage Change StorageRequest) (key : ManifestKey) : Prop :=
  ∃ i session, state.sessions i = some session ∧ session.position.owes = some key

/-- What is owed stays owed until it is written: no finalize fails or stops
before that, unless another one of the version has still to write. -/
def Writes (before after : State OrgStorage Change StorageRequest) : Prop :=
  ∀ key, Owed before key → Owed after key ∨ Manifest.Stored after.committed key

theorem Change.stored (stored : Manifest.Stored org key) : Manifest.Stored (change.apply org) key := by
  cases change with
  | putManifest manifest =>
    simp only [Manifest.Stored, Change.apply, Table.get?_upsert]
    split
    · rfl
    · exact stored
  | _ => exact stored

theorem Change.listed (listed : Listed org key) : Listed (change.apply org) key := by
  obtain ⟨version, mem, rfl⟩ := listed
  cases change with
  | siteVersion row =>
    have found := Table.mem_iff_get?.mp mem
    have still : ((Change.siteVersion row).apply org).siteVersions.get? version.id = some version := by
      simp only [Change.apply, Table.get?_upsert, found, Option.elim_some, id, ite_self]
    exact ⟨version, Table.mem_iff_get?.mpr still, rfl⟩
  | previewExpiry versionId expiresAt =>
    refine ⟨_, List.mem_map.mpr ⟨version, mem, rfl⟩, ?_⟩
    split <;> rfl
  | _ => exact ⟨version, mem, rfl⟩

theorem Change.listed_of (listed : Listed (change.apply org) key) :
    Listed org key ∨ ∃ row, change = .siteVersion row ∧ row.manifestKey = key := by
  obtain ⟨version, mem, rfl⟩ := listed
  cases change with
  | siteVersion row =>
    rcases Table.mem_upsert mem with old | rfl | ⟨old, found, same⟩
    · exact .inl ⟨version, old, rfl⟩
    · exact .inr ⟨version, rfl, rfl⟩
    · exact .inl ⟨old, (Table.get?_eq_some.mp found).1, same ▸ rfl⟩
  | previewExpiry versionId expiresAt =>
    obtain ⟨old, oldMem, rfl⟩ := List.mem_map.mp mem
    refine .inl ⟨old, oldMem, ?_⟩
    split <;> rfl
  | _ => exact .inl ⟨version, mem, rfl⟩

theorem Change.pointed (pointed : Pointed org)
    (made : ∀ siteId versionId, change = .currentVersion siteId versionId →
      Listed org (.site siteId versionId)) : Pointed (change.apply org) := by
  intro site mem versionId live
  apply Change.listed
  cases change with
  | currentVersion siteId made_ =>
    obtain ⟨old, oldMem, rfl⟩ := List.mem_map.mp mem
    by_cases here : old.id = siteId
    · simp only [here, decide_true, if_true, Option.some.injEq] at live ⊢
      subst live
      exact made siteId made_ rfl
    · simp only [here, decide_false, Bool.false_eq_true, if_false] at live ⊢
      exact pointed old oldMem versionId live
  | _ => exact pointed site mem versionId live

/-- The version that a publish has found. -/
def StorageRequest.aims : StorageRequest → Option ManifestKey
  | .publish (.getHostRoute siteId versionId) => some (.site siteId versionId)
  | .publish (.setCurrentVersion siteId versionId) => some (.site siteId versionId)
  | _ => none

/-- What a request has pending, and what it has seen. -/
structure StorageRequest.Honest (org : OrgStorage) (session : Session Change StorageRequest) : Prop where
  creates : ∀ row, Change.siteVersion row ∈ session.pending →
    ∃ files p, session.position = .finalize (.create files (.created p row))
  points : ∀ siteId versionId, Change.currentVersion siteId versionId ∈ session.pending →
    Listed org (.site siteId versionId)
  aims : ∀ key, session.position.aims = some key → Listed org key

section Runs

private theorem applyAll_stored (hash : Sha256) (quota : StorageQuota)
    (stored : Manifest.Stored org key) :
    Manifest.Stored ((storageServer hash quota).applyAll changes org) key := by
  induction changes generalizing org with
  | nil => exact stored
  | cons change rest ih => exact ih (Change.stored stored)

private theorem applyAll_listed (hash : Sha256) (quota : StorageQuota) (listed : Listed org key) :
    Listed ((storageServer hash quota).applyAll changes org) key := by
  induction changes generalizing org with
  | nil => exact listed
  | cons change rest ih => exact ih (Change.listed listed)

private theorem applyAll_listed_of
    (listed : Listed ((storageServer hash quota).applyAll changes org) key) :
    Listed org key ∨ ∃ row, Change.siteVersion row ∈ changes ∧ row.manifestKey = key := by
  induction changes generalizing org with
  | nil => exact .inl listed
  | cons change rest ih =>
    rcases ih listed with before | ⟨row, mem, same⟩
    · rcases Change.listed_of before with before | ⟨row, rfl, same⟩
      · exact .inl before
      · exact .inr ⟨row, List.mem_cons_self, same⟩
    · exact .inr ⟨row, List.mem_cons_of_mem _ mem, same⟩

private theorem applyAll_pointed (hash : Sha256) (quota : StorageQuota) (pointed : Pointed org)
    (made : ∀ siteId versionId, Change.currentVersion siteId versionId ∈ changes →
      Listed org (.site siteId versionId)) :
    Pointed ((storageServer hash quota).applyAll changes org) := by
  induction changes generalizing org with
  | nil => exact pointed
  | cons change rest ih =>
    apply ih
    · exact Change.pointed pointed fun siteId versionId same => made siteId versionId (same ▸ List.mem_cons_self)
    · exact fun siteId versionId mem => Change.listed (made siteId versionId (List.mem_cons_of_mem change mem))

/-- Before a version is created, a request sees no other versions than there are. -/
private theorem view_listed (honest : StorageRequest.Honest org session)
    (notCreated : ∀ files p row, session.position ≠ .finalize (.create files (.created p row)))
    (listed : Listed ((storageServer hash quota).view org session) key) : Listed org key := by
  rcases applyAll_listed_of listed with before | ⟨row, mem, same⟩
  · exact before
  · obtain ⟨files, p, here⟩ := honest.creates row mem
    exact absurd here (notCreated files p row)

private theorem aims_next {next : StorageRequest} (honest : StorageRequest.Honest org session)
    (ran : session.position.next hash quota input ((storageServer hash quota).view org session) =
      some (effect, next)) (aims : next.aims = some key) : Listed org key := by
  obtain ⟨request, pending⟩ := session
  cases request with
  | finalize position =>
    obtain ⟨later, -, rfl⟩ := StorageRequest.next_finalize ran
    cases aims
  | seed position =>
    obtain ⟨later, -, rfl⟩ := StorageRequest.next_seed ran
    cases aims
  | collect position =>
    obtain ⟨later, -, rfl⟩ := StorageRequest.next_collect ran
    cases aims
  | upload sha bytes =>
    cases ran
    cases aims
  | uploaded => cases ran
  | publish position =>
    obtain ⟨later, step, rfl⟩ := StorageRequest.next_publish ran
    cases position with
    | getSite siteId versionId =>
      simp only [Publishing.next] at step
      split at step <;> (cases step; cases aims)
    | getSiteVersion siteId versionId =>
      simp only [Publishing.next] at step
      split at step
      · cases step
        cases aims
      · rename_i version found
        split at step
        · rename_i same
          cases step
          cases aims
          obtain ⟨mem, id⟩ := Table.get?_eq_some.mp found
          refine view_listed honest (fun files p row here => ?_) ⟨version, mem, ?_⟩
          · cases here
          · rw [VersionRow.manifestKey, same, id]
        · cases step
          cases aims
    | getHostRoute siteId versionId =>
      simp only [Publishing.next] at step
      split at step
      · cases step
        cases aims
      · cases step
        cases aims
        exact honest.aims _ rfl
    | setCurrentVersion siteId versionId =>
      cases step
      cases aims
    | setVersionPreviewExpiry siteId versionId =>
      cases step
      cases aims
    | publishCommit siteId versionId =>
      cases step
      cases aims
    | published siteId versionId => cases step
    | refused error => cases step

private theorem store_listed (listed : Listed org key) {pending : List Change} :
    Listed ((storageServer hash quota).store org pending effect) key := by
  cases effect with
  | commit => exact applyAll_listed hash quota listed
  | outside change => exact Change.listed listed
  | _ => exact listed

/-- A created version is committed by the next step. -/
private theorem pending_creates {next : StorageRequest} {row : VersionRow} (honest : StorageRequest.Honest org session)
    (ran : session.position.next hash quota input ((storageServer hash quota).view org session) =
      some (effect, next)) (mem : Change.siteVersion row ∈ Server.pending session.pending effect) :
    ∃ files p, next = .finalize (.create files (.created p row)) := by
  have before : Change.siteVersion row ∈ session.pending → effect = .commit := by
    intro pending
    obtain ⟨files, p, here⟩ := honest.creates row pending
    rw [here] at ran
    cases ran
    rfl
  cases effect with
  | read keys => cases before mem
  | outside change => cases before mem
  | commit => cases mem
  | rollback => cases mem
  | write change =>
    rcases List.mem_append.mp mem with mem | mem
    · cases before mem
    · rw [← List.mem_singleton.mp mem] at ran
      exact StorageRequest.next_siteVersion ran

private theorem honest_next {next : StorageRequest} (honest : StorageRequest.Honest org session)
    (ran : session.position.next hash quota input ((storageServer hash quota).view org session) =
      some (effect, next)) :
    StorageRequest.Honest ((storageServer hash quota).store org session.pending effect)
      ⟨next, Server.pending session.pending effect⟩ := by
  refine ⟨fun row mem => pending_creates honest ran mem, fun siteId versionId mem => ?_,
    fun key aims => store_listed (aims_next honest ran aims)⟩
  apply store_listed
  cases effect with
  | read keys => exact honest.points siteId versionId mem
  | outside change => exact honest.points siteId versionId mem
  | commit => cases mem
  | rollback => cases mem
  | write change =>
    rcases List.mem_append.mp mem with mem | mem
    · exact honest.points siteId versionId mem
    · rw [← List.mem_singleton.mp mem] at ran
      apply honest.aims
      rw [StorageRequest.next_currentVersion ran]
      rfl

theorem storage_pointed : (storageServer hash quota).Discipline Pointed StorageRequest.Honest
    (fun _ _ => True) (fun _ _ _ => True) where
  arrives {org position} _ admitted := by
    refine ⟨fun row mem => (List.not_mem_nil mem).elim, fun siteId versionId mem =>
      (List.not_mem_nil mem).elim, fun key aims => ?_⟩
    cases admitted <;> cases aims
  store {org session input effect position} pointed honest _ ran := by
    cases effect with
    | commit => exact applyAll_pointed hash quota pointed honest.points
    | outside change =>
      apply Change.pointed pointed
      intro siteId versionId same
      cases StorageRequest.next_outside ran <;> cases same
    | _ => exact pointed
  request _ honest _ ran := honest_next honest ran
  others _ honest _ _ _ _ _ _ :=
    ⟨honest.creates, fun siteId versionId mem => store_listed (honest.points siteId versionId mem),
      fun key aims => store_listed (honest.aims key aims)⟩

end Runs

/-- Every version has its manifest, or some request has still to write it. -/
def Promised (state : State OrgStorage Change StorageRequest) : Prop :=
  ∀ key, Listed state.committed key → Manifest.Stored state.committed key ∨ Owed state key

/-- A version that a step commits is owed by the request that made the step. -/
private theorem listed_step (sound : (storageServer hash quota).Sound Pointed StorageRequest.Honest state)
    (step : (storageServer hash quota).Step state next) (listed : Listed next.committed key) :
    Listed state.committed key ∨ Owed next key := by
  cases step with
  | arrive free admitted => exact .inl listed
  | stop => exact .inl listed
  | @act i session effect position input running ran unlocked =>
    have honest := sound.sessions i session running
    cases effect with
    | commit =>
      rcases applyAll_listed_of listed with before | ⟨row, mem, same⟩
      · exact .inl before
      · obtain ⟨files, p, here⟩ := honest.creates row mem
        have made : position = .finalize (.create files (.returned p row)) := by
          have ran : session.position.next hash quota input
            ((storageServer hash quota).view state.committed session) = some (.commit, position) := ran
          rw [here] at ran
          cases ran
          rfl
        refine .inr ⟨i, ⟨position, []⟩, ?_, ?_⟩
        · exact Function.update_self ..
        · rw [made, ← same]
          rfl
    | outside change =>
      rcases Change.listed_of listed with before | ⟨row, rfl, -⟩
      · exact .inl before
      · cases StorageRequest.next_outside ran
    | _ => exact .inl listed

private theorem stored_step (step : (storageServer hash quota).Step state next)
    (stored : Manifest.Stored state.committed key) : Manifest.Stored next.committed key := by
  cases step with
  | arrive free admitted => exact stored
  | stop => exact stored
  | @act i session effect position input running ran unlocked =>
    cases effect with
    | commit => exact applyAll_stored hash quota stored
    | outside change => exact Change.stored stored
    | _ => exact stored

private theorem promised_step (sound : (storageServer hash quota).Sound Pointed StorageRequest.Honest state)
    (promised : Promised state) (step : (storageServer hash quota).Step state next)
    (writes : Writes state next) : Promised next := by
  intro key listed
  rcases listed_step sound step listed with before | owed
  · rcases promised key before with stored | owed
    · exact .inl (stored_step step stored)
    · exact (writes key owed).symm
  · exact .inr owed

/-- Every version of the org has its manifest, and every live pointer is one to a
version of its site. -/
structure Manifested (org : OrgStorage) : Prop where
  stored : ∀ key, Listed org key → Manifest.Stored org key
  pointed : Pointed org

theorem Manifested.servable (manifested : Manifested org) : Servable org where
  ready version mem _ := manifested.stored _ ⟨version, mem, rfl⟩
  published site mem versionId live := manifested.stored _ (manifested.pointed site mem versionId live)

/-- As long as every manifest that is owed stays owed until it is written, the
ready and the live versions have their manifests whenever none is owed. -/
theorem manifests_written (manifested : Manifested start)
    (run : (storageServer hash quota).Run Writes (Server.idle start) final)
    (settled : ∀ key, ¬ Owed final key) : Servable final.committed := by
  have invariant : (storageServer hash quota).Sound Pointed StorageRequest.Honest final ∧ Promised final := by
    clear settled
    induction run with
    | refl =>
      refine ⟨Server.Sound.run storage_pointed manifested.pointed .refl, fun key listed => ?_⟩
      exact .inl (manifested.stored key listed)
    | tail _ step ih =>
      exact ⟨ih.1.step storage_pointed (Server.orderly_trivial _) step.1, promised_step ih.1 ih.2 step.1 step.2⟩
  obtain ⟨sound, promised⟩ := invariant
  have manifested : Manifested final.committed :=
    ⟨fun key listed => (promised key listed).resolve_right (settled key), sound.store⟩
  exact manifested.servable

/-! A page is deployed, its manifest is not written, and the version is published. -/

def pageSha : Text := "8f434346648f6b96df89dda901c5176b10a6d83961dd3c1ac88b59b2dc327aa4".toList

def pageDigest : Text := "abb119cdfb1c0bdfc48e54c42f89a39d421f44bfac0d605cd9b25c01f1181f0c".toList

def pageBytes : Bytes := [104, 105]

def pageFile : ManifestFile := ⟨['a'], pageSha, 2, []⟩

/-- SHA-256 on the bytes of the page and of its digest line. -/
def pageHash : Sha256 := fun bytes =>
  if bytes = pageBytes then pageSha else if bytes = Utf8.encode (digestLine pageFile) then pageDigest else []

def pageStorage : OrgStorage where
  planTier := "free".toList
  skillsSeeded := false
  sites := .singleton ⟨['s'], none⟩
  siteVersions := .empty
  skills := .empty
  skillVersions := .empty
  orgBlobs := .empty
  storageBytes := 0
  blobs := .singleton ⟨pageSha, pageBytes, none⟩
  manifests := .empty

theorem page_manifested : Manifested pageStorage where
  stored key := by
    rintro ⟨version, mem, -⟩
    cases mem
  pointed site mem versionId live := by
    cases List.mem_singleton.mp mem
    cases live

abbrev pageServer := storageServer pageHash unmetered

instance : DecidablePred pageServer.admits := inferInstanceAs (DecidablePred StorageRequest.Starts)

def pageMoves (i : Nat) (fails : Bool) (steps : Nat) : List (Server.Move Input StorageRequest) :=
  List.replicate steps (.act i ⟨['v'], 0, fails⟩)

def pageFinalize : StorageRequest := .finalize (.verifyManifest ⟨['s'], [pageFile], pageDigest⟩)

def pagePublish : StorageRequest := .publish (.getSite ['s'] ['v'])

/-- The finalize stops at its manifest; then the version goes live. -/
def unwritten : List (Server.Move Input StorageRequest) :=
  [.arrive 0 pageFinalize] ++ pageMoves 0 false 16 ++ pageMoves 0 true 1 ++ [.arrive 1 pagePublish] ++
    pageMoves 1 false 6

/-- The version is ready and live, and nothing can be served. -/
theorem live_without_manifest : Manifested pageStorage ∧ ∃ final,
    Relation.ReflTransGen pageServer.Step (Server.idle pageStorage) final ∧ ¬ Servable final.committed := by
  have performed : (pageServer.performAll 2 (fun _ _ => true) unwritten (Server.idle pageStorage)).map
      (fun final => (final.committed.sites.rows, final.committed.manifests.rows)) =
        some ([⟨['s'], some ['v']⟩], []) := rfl
  obtain ⟨final, ran, same⟩ := Option.map_eq_some_iff.mp performed
  obtain ⟨sites, manifests⟩ := Prod.mk.injEq .. ▸ same
  refine ⟨page_manifested, final, Relation.ReflTransGen.mono (fun _ _ step => step.1) _ _
    (Server.performAll_run (fun _ _ => rfl) ran), fun servable => ?_⟩
  have stored := servable.published ⟨['s'], some ['v']⟩ (sites ▸ List.mem_singleton.mpr rfl) ['v'] rfl
  rw [Manifest.Stored, Table.get?, manifests] at stored
  cases stored

/-- `Writes` for two requests. -/
def writesBelow (before after : State OrgStorage Change StorageRequest) : Bool :=
  [0, 1].all fun i => (before.sessions i).all fun session => session.position.owes.all fun key =>
    ([0, 1].any fun j => (after.sessions j).any fun other => decide (other.position.owes = some key)) ||
      (after.committed.manifests.get? key).isSome

private theorem owed_below (below : Server.Below 2 state) (owed : Owed state key) :
    ∃ i ∈ [0, 1], ∃ session, state.sessions i = some session ∧ session.position.owes = some key := by
  obtain ⟨i, session, running, owes⟩ := owed
  by_cases inside : i < 2
  · exact ⟨i, by simp; omega, session, running, owes⟩
  · rw [below i (by omega)] at running
    cases running

private theorem writesBelow_sound (below : Server.Below 2 state)
    (checked : writesBelow state next = true) : Writes state next := by
  intro key owed
  obtain ⟨i, inside, session, running, owes⟩ := owed_below below owed
  have here := List.all_eq_true.mp checked i inside
  simp only [running, Option.all_some, owes, Bool.or_eq_true, List.any_eq_true] at here
  rcases here with ⟨j, -, there⟩ | stored
  · obtain ⟨other, otherRunning, same⟩ := (Option.any_eq_true _ _).mp there
    exact .inl ⟨j, other, otherRunning, of_decide_eq_true same⟩
  · exact .inr stored

def written : List (Server.Move Input StorageRequest) :=
  [.arrive 0 pageFinalize] ++ pageMoves 0 false 19 ++ [.arrive 1 pagePublish] ++ pageMoves 1 false 6

theorem page_written : ∃ final, pageServer.performAll 2 writesBelow written (Server.idle pageStorage) =
    some final ∧ Servable final.committed := by
  have performed : (pageServer.performAll 2 writesBelow written (Server.idle pageStorage)).map
      (fun final => [0, 1].all fun i => (final.sessions i).all fun session =>
        session.position.owes.isNone) = some true := rfl
  obtain ⟨final, ran, none⟩ := Option.map_eq_some_iff.mp performed
  have idle : Server.Below 2 (Server.idle pageStorage : State OrgStorage Change StorageRequest) := fun _ _ => rfl
  have run : pageServer.Run Writes (Server.idle pageStorage) final :=
    Relation.ReflTransGen.mono (fun _ _ step => ⟨step.1, writesBelow_sound step.2.2.1 step.2.1⟩) _ _
      (Server.performAll_run idle ran)
  refine ⟨final, ran, manifests_written page_manifested run fun key owed => ?_⟩
  · obtain ⟨i, inside, session, running, owes⟩ := owed_below (Server.performAll_below idle ran) owed
    have here := List.all_eq_true.mp none i inside
    rw [running, Option.all_some, owes] at here
    cases here

end Dropway.Api
