import Dropway.Proofs.ReadyManifests

/-! Whether a version keeps the content that it was finalized with. A finalize finds
the version of its digest, and writes its own manifest there; the digest leaves out
the content types and does not tell every two lists of paths apart. -/

namespace Dropway.Api
open Lib
open Lib.ReadCommitted (Session State)

variable {hash : Sha256} {quota : StorageQuota} {asked : FinalizeRequest → Prop} {siteId : Text}
  {org start : OrgStorage} {change : Change} {changes : List Change} {version : VersionRow}
  {session other : Session Change StorageRequest} {input : Input} {effect : Effect Change LockKey}
  {state next final : State OrgStorage Change StorageRequest}

/-- The storage of an org, when only some requests to finalize are sent. -/
def finalizeServer (hash : Sha256) (quota : StorageQuota) (asked : FinalizeRequest → Prop) :
    Server Input OrgStorage Change LockKey StorageRequest :=
  { storageServer hash quota with
    admits := fun request => request.Starts ∧ ∀ r, request = .finalize (.verifyManifest r) → asked r }

/-- The files that a manifest comes to. -/
def filesOf (manifest : List ManifestFile) : List (Text × ManifestTarget) :=
  manifest.foldl (fun files file => putFile file.path ⟨file.sha256, file.contentType, file.size.toNat⟩ files) []

/-- The requests for a site that have one digest have the same files. -/
def Agree (siteId : Text) (asked : FinalizeRequest → Prop) : Prop :=
  ∀ r other, asked r → asked other → r.siteId = siteId → other.siteId = siteId → r.digest = other.digest →
    filesOf r.manifest = filesOf other.manifest

/-! ### What a version is known by -/

/-- The row of a version is there. -/
def HasRow (org : OrgStorage) (version : VersionRow) : Prop :=
  ∃ row, org.siteVersions.get? version.id = some row ∧ row.siteId = version.siteId ∧
    row.contentHash = version.contentHash

/-- The files are those that a request under the version's digest asked for. -/
def Content (asked : FinalizeRequest → Prop) (version : VersionRow) (files : List (Text × ManifestTarget)) : Prop :=
  ∃ r, asked r ∧ r.siteId = version.siteId ∧ r.digest = version.contentHash ∧ files = filesOf r.manifest

/-- Every manifest of the site is the content of its version. -/
def Faithful (siteId : Text) (asked : FinalizeRequest → Prop) (org : OrgStorage) : Prop :=
  ∀ versionId manifest, org.manifests.get? (.site siteId versionId) = some manifest →
    ∃ row, org.siteVersions.get? versionId = some row ∧ row.siteId = siteId ∧ Content asked row manifest.files

theorem HasRow.apply (has : HasRow org version) : HasRow (change.apply org) version := by
  obtain ⟨row, found, site, content⟩ := has
  cases change with
  | siteVersion made =>
    refine ⟨row, ?_, site, content⟩
    simp only [Change.apply, Table.get?_upsert, found, Option.elim_some, id, ite_self]
  | previewExpiry versionId expiresAt =>
    refine ⟨if row.id = versionId then { row with previewExpiresAt := expiresAt } else row, ?_, ?_, ?_⟩
    · simp only [Change.apply, Table.get?_update, found, Option.map_some, decide_eq_true_eq]
    · split
      · exact site
      · exact site
    · split
      · exact content
      · exact content
  | _ => exact ⟨row, found, site, content⟩

theorem HasRow.of_apply (has : HasRow (change.apply org) version) :
    HasRow org version ∨ ∃ row, change = .siteVersion row := by
  cases change with
  | siteVersion made => exact .inr ⟨made, rfl⟩
  | previewExpiry versionId expiresAt =>
    obtain ⟨row, found, site, content⟩ := has
    simp only [Change.apply, Table.get?_update] at found
    obtain ⟨old, before, rfl⟩ := Option.map_eq_some_iff.mp found
    refine .inl ⟨old, before, ?_, ?_⟩
    · split at site
      · exact site
      · exact site
    · split at content
      · exact content
      · exact content
  | _ => exact .inl has

theorem Content.congr {row : VersionRow} {files : List (Text × ManifestTarget)} (content : Content asked version files)
    (site : row.siteId = version.siteId) (hashed : row.contentHash = version.contentHash) : Content asked row files := by
  obtain ⟨r, was, own, digest, same⟩ := content
  exact ⟨r, was, own.trans site.symm, digest.trans hashed.symm, same⟩

/-- The manifests of the site are left alone. -/
def Change.Spares (siteId : Text) (change : Change) : Prop :=
  ∀ manifest, change = .putManifest manifest → ∀ versionId, manifest.key ≠ .site siteId versionId

theorem Change.Spares.get? (spares : change.Spares siteId) (versionId : Text) :
    (change.apply org).manifests.get? (.site siteId versionId) = org.manifests.get? (.site siteId versionId) := by
  cases change with
  | putManifest manifest => simp only [Change.apply, Table.get?_upsert, if_neg (spares manifest rfl versionId)]
  | _ => rfl

theorem Change.spares_of (quiet : ¬ change.Stores) : change.Spares siteId := by
  intro manifest same
  subst same
  exact absurd (.putManifest manifest) quiet

theorem Faithful.apply (recorded : Faithful siteId asked org) (spares : change.Spares siteId) :
    Faithful siteId asked (change.apply org) := by
  intro versionId manifest stored
  rw [spares.get?] at stored
  obtain ⟨row, found, site, content⟩ := recorded versionId manifest stored
  have keyed := Table.get?_key found
  have has : HasRow (change.apply org) row := HasRow.apply ⟨row, keyed ▸ found, rfl, rfl⟩
  obtain ⟨after, there, same, hashed⟩ := has
  exact ⟨after, keyed ▸ there, same.trans site, content.congr same hashed⟩

/-- The content of a version is written. -/
theorem Faithful.putManifest {files : List (Text × ManifestTarget)} (recorded : Faithful siteId asked org)
    (has : HasRow org version) (content : Content asked version files) :
    Faithful siteId asked ((Change.putManifest ⟨version.manifestKey, files⟩).apply org) := by
  intro versionId manifest stored
  simp only [Change.apply, Table.get?_upsert] at stored
  split at stored
  · rename_i same
    cases same
    obtain ⟨row, found, site, hashed⟩ := has
    have files : manifest.files = files := by
      cases before : org.manifests.get? (.site version.siteId version.id) with
      | none =>
        rw [before] at stored
        cases stored
        rfl
      | some old =>
        rw [before] at stored
        cases stored
        rfl
    exact ⟨row, found, site, files ▸ content.congr site hashed⟩
  · exact recorded versionId manifest stored

/-! ### What a finalize relies on -/

/-- The version is the one that the request asked for. -/
def VersionRow.Of (r : FinalizeRequest) (version : VersionRow) : Prop :=
  version.siteId = r.siteId ∧ version.contentHash = r.digest

def Creating.Relied (r : FinalizeRequest) (org : OrgStorage) : Creating → Prop
  | .getSite p | .getSiteVersionByContentHash p | .accountStorage p _ | .nextVersionNo p | .createSiteVersion p _ =>
    p.siteId = r.siteId ∧ p.contentHash = r.digest
  | .existing _ version | .returned _ version => version.Of r ∧ HasRow org version
  | .created _ version => version.Of r ∧ org.siteVersions.get? version.id = none
  | .failed _ => True

def Finalizing.Relied (asked : FinalizeRequest → Prop) (org : OrgStorage) : Finalizing → Prop
  | .verifyManifest r => asked r
  | .verifyFiles r rest verified =>
    asked r ∧ ∃ done, r.manifest = done ++ rest ∧ verified.files = filesOf done
  | .create files creating => ∃ r, asked r ∧ files = filesOf r.manifest ∧ creating.Relied r org
  | .putManifest files version => HasRow org version ∧ Content asked version files
  | .createPreview version | .previewCommit version | .finalized version =>
    HasRow org version ∧ Manifest.Stored org version.manifestKey
  | .refused _ => True

/-- What a request relies on, and what it has pending. -/
structure Relied (asked : FinalizeRequest → Prop) (org : OrgStorage) (session : Session Change StorageRequest) :
    Prop where
  finalizing : ∀ position, session.position = .finalize position → position.Relied asked org
  creates : ∀ row, Change.siteVersion row ∈ session.pending →
    ∃ files p, session.position = .finalize (.create files (.created p row))
  created : ∀ files p row, session.position = .finalize (.create files (.created p row)) →
    Change.siteVersion row ∈ session.pending
  quiet : ∀ change ∈ session.pending, ¬ change.Stores

private theorem applyAll_hasRow (has : HasRow org version) :
    HasRow ((finalizeServer hash quota asked).applyAll changes org) version := by
  induction changes generalizing org with
  | nil => exact has
  | cons change rest ih => exact ih has.apply

private theorem applyAll_hasRow_of (has : HasRow ((finalizeServer hash quota asked).applyAll changes org) version) :
    HasRow org version ∨ ∃ row, Change.siteVersion row ∈ changes := by
  induction changes generalizing org with
  | nil => exact .inl has
  | cons change rest ih =>
    rcases ih has with before | ⟨row, mem⟩
    · rcases HasRow.of_apply before with before | ⟨row, rfl⟩
      · exact .inl before
      · exact .inr ⟨row, List.mem_cons_self⟩
    · exact .inr ⟨row, List.mem_cons_of_mem _ mem⟩

private theorem applyAll_recorded (recorded : Faithful siteId asked org) (quiet : ∀ change ∈ changes, ¬ change.Stores) :
    Faithful siteId asked ((finalizeServer hash quota asked).applyAll changes org) := by
  induction changes generalizing org with
  | nil => exact recorded
  | cons change rest ih =>
    exact ih (recorded.apply (Change.spares_of (quiet change List.mem_cons_self))) fun other mem => quiet other (List.mem_cons_of_mem _ mem)

private theorem applyAll_manifests (quiet : ∀ change ∈ changes, ¬ change.Stores) :
    ((finalizeServer hash quota asked).applyAll changes org).manifests = org.manifests := by
  induction changes generalizing org with
  | nil => rfl
  | cons change rest ih =>
    refine (ih fun other mem => quiet other (List.mem_cons_of_mem _ mem)).trans ?_
    have here := quiet change List.mem_cons_self
    cases change with
    | putManifest made => exact absurd (.putManifest made) here
    | _ => rfl

/-- A free id is taken by the version that has it only. -/
private theorem apply_free (free : org.siteVersions.get? version.id = none)
    (apart : ∀ row, change = .siteVersion row → row.id ≠ version.id) :
    (change.apply org).siteVersions.get? version.id = none := by
  cases change with
  | siteVersion row => simp only [Change.apply, Table.get?_upsert, if_neg (apart row rfl), free]
  | previewExpiry versionId expiresAt => simp only [Change.apply, Table.get?_update, free, Option.map_none]
  | _ => exact free

private theorem applyAll_free (free : org.siteVersions.get? version.id = none)
    (apart : ∀ row, Change.siteVersion row ∈ changes → row.id ≠ version.id) :
    ((finalizeServer hash quota asked).applyAll changes org).siteVersions.get? version.id = none := by
  induction changes generalizing org with
  | nil => exact free
  | cons change rest ih =>
    exact ih (apply_free free fun row same => apart row (same ▸ List.mem_cons_self))
      fun row mem => apart row (List.mem_cons_of_mem _ mem)

/-- The version that a transaction creates is there once it has committed. -/
private theorem applyAll_created (free : org.siteVersions.get? version.id = none) (mem : Change.siteVersion version ∈ changes)
    (only : ∀ row, Change.siteVersion row ∈ changes → row = version) :
    HasRow ((finalizeServer hash quota asked).applyAll changes org) version := by
  induction changes generalizing org with
  | nil => cases mem
  | cons change rest ih =>
    by_cases here : change = .siteVersion version
    · have has : HasRow (change.apply org) version := by
        refine ⟨version, ?_, rfl, rfl⟩
        simp only [here, Change.apply, Table.get?_upsert, free, Option.elim_none, if_true]
      rw [Server.applyAll_cons]
      exact applyAll_hasRow has
    · have later : Change.siteVersion version ∈ rest := (List.mem_cons.mp mem).resolve_left (Ne.symm here)
      refine ih (apply_free free fun row same => ?_) later fun row mem => only row (List.mem_cons_of_mem _ mem)
      rw [only row (same ▸ List.mem_cons_self)] at same
      exact absurd same here

/-! ### Steps -/

private theorem hasRow_store (has : HasRow org version) {pending : List Change} :
    HasRow ((finalizeServer hash quota asked).store org pending effect) version := by
  cases effect with
  | commit => exact applyAll_hasRow has
  | outside change => exact has.apply
  | _ => exact has

private theorem stored_store {key : ManifestKey} (stored : Manifest.Stored org key) {pending : List Change}
    (quiet : ∀ change ∈ pending, ¬ change.Stores) :
    Manifest.Stored ((finalizeServer hash quota asked).store org pending effect) key := by
  cases effect with
  | commit =>
    unfold Manifest.Stored
    rw [Server.store, applyAll_manifests quiet]
    exact stored
  | outside change => exact Change.stored stored
  | _ => exact stored

/-- A row that a request sees before it has created one is committed. -/
private theorem view_hasRow (relied : Relied asked org session)
    (before : ∀ files p row, session.position ≠ .finalize (.create files (.created p row)))
    (has : HasRow ((finalizeServer hash quota asked).view org session) version) : HasRow org version := by
  rcases applyAll_hasRow_of has with found | ⟨row, mem⟩
  · exact found
  · obtain ⟨files, p, here⟩ := relied.creates row mem
    exact absurd here (before files p row)

private theorem creating_relied {r : FinalizeRequest} {files : List (Text × ManifestTarget)}
    {creating later : Creating} {pending : List Change} (relied : Relied asked org ⟨.finalize (.create files creating), pending⟩)
    (held : creating.Relied r org)
    (ran : creating.next quota input ((finalizeServer hash quota asked).view org ⟨.finalize (.create files creating), pending⟩) =
      some (effect, later)) :
    later.Relied r ((finalizeServer hash quota asked).store org pending effect) := by
  cases creating with
  | getSite p =>
    simp only [Creating.next] at ran
    split at ran
    · cases ran
      exact held
    · cases ran
      trivial
  | getSiteVersionByContentHash p =>
    simp only [Creating.next] at ran
    split at ran
    · rename_i version found
      cases ran
      have mem := List.mem_of_find?_eq_some found
      have same := List.find?_some found
      simp only [decide_eq_true_eq] at same
      have seen : HasRow ((finalizeServer hash quota asked).view org
          ⟨.finalize (.create files (.getSiteVersionByContentHash p)), pending⟩) version :=
        ⟨version, Table.mem_iff_get?.mp mem, rfl, rfl⟩
      exact ⟨⟨same.1.trans held.1, same.2.trans held.2⟩, view_hasRow relied (fun _ _ _ here => by cases here) seen⟩
    · cases ran
      exact held
  | accountStorage p metering =>
    simp only [Creating.next] at ran
    split at ran
    · cases ran
      exact held
    · cases ran
      trivial
    · cases ran
      exact held
  | nextVersionNo p =>
    cases ran
    exact held
  | createSiteVersion p versionNo =>
    simp only [Creating.next] at ran
    split at ran
    · cases ran
    rename_i undrawn
    split at ran
    · cases ran
      trivial
    · cases ran
      refine ⟨held, ?_⟩
      -- A committed row of the id would be seen.
      change org.siteVersions.get? input.id = none
      cases found : org.siteVersions.get? input.id with
      | none => rfl
      | some row =>
        have keyed := Table.get?_key found
        have seen : HasRow ((finalizeServer hash quota asked).applyAll pending org) row :=
          applyAll_hasRow ⟨row, keyed ▸ found, rfl, rfl⟩
        obtain ⟨seen, there, -⟩ := seen
        refine absurd (List.contains_iff_mem.mpr (OrgStorage.mem_ids.mpr (.inl (.inl (.inl ⟨seen, ?_, ?_⟩))))) undrawn
        · exact (Table.get?_eq_some.mp there).1
        · exact (Table.get?_key there).trans keyed
  | existing p version =>
    cases ran
    exact ⟨held.1, hasRow_store held.2⟩
  | created p version =>
    cases ran
    refine ⟨held.1, applyAll_created held.2 (relied.created files p version rfl) fun row mem => ?_⟩
    obtain ⟨_, _, here⟩ := relied.creates row mem
    cases here
    rfl
  | returned p version => cases ran
  | failed error => cases ran

theorem filesOf_append (done : List ManifestFile) (file : ManifestFile) :
    filesOf (done ++ [file]) =
      putFile file.path ⟨file.sha256, file.contentType, file.size.toNat⟩ (filesOf done) := by
  rw [filesOf, List.foldl_append]
  rfl

private theorem finalizing_relied {position later : Finalizing} {pending : List Change}
    (relied : Relied asked org ⟨.finalize position, pending⟩)
    (ran : position.next hash quota input ((finalizeServer hash quota asked).view org ⟨.finalize position, pending⟩) =
      some (effect, later)) :
    later.Relied asked ((finalizeServer hash quota asked).store org pending effect) := by
  have held := relied.finalizing position rfl
  cases position with
  | verifyManifest r =>
    simp only [Finalizing.next] at ran
    split at ran
    · cases ran
      trivial
    split at ran
    · cases ran
      trivial
    split at ran
    · cases ran
      trivial
    · cases ran
      exact ⟨held, [], rfl, rfl⟩
  | verifyFiles r rest verified =>
    obtain ⟨was, done, split', files⟩ := held
    cases rest with
    | nil =>
      cases ran
      rw [List.append_nil] at split'
      exact ⟨r, was, files.trans (congrArg filesOf split'.symm), rfl, rfl⟩
    | cons file rest =>
      simp only [Finalizing.next] at ran
      split at ran
      · cases ran
        trivial
      split at ran
      · rename_i added ok
        cases ran
        refine ⟨was, done ++ [file], by rw [split', List.append_assoc, List.singleton_append], ?_⟩
        obtain ⟨-, observed, size, -, same⟩ := Verified.add_ok ok
        rw [same, filesOf_append, files, size, Int.toNat_natCast]
      · cases ran
        trivial
  | create files creating =>
    obtain ⟨r, was, same, held⟩ := held
    rcases Finalizing.next_create ran with ⟨p, version, rfl, rfl, rfl⟩ | ⟨error, rfl, rfl, rfl⟩ | ⟨later, step, rfl⟩
    · exact ⟨held.2, r, was, held.1.1.symm, held.1.2.symm, same⟩
    · trivial
    · exact ⟨r, was, same, creating_relied relied held step⟩
  | putManifest files version =>
    simp only [Finalizing.next] at ran
    split at ran
    · cases ran
      trivial
    · cases ran
      refine ⟨hasRow_store held.1, ?_⟩
      change Manifest.Stored ((Change.putManifest ⟨.site version.siteId version.id, files⟩).apply org) _
      simp only [Manifest.Stored, Change.apply, Table.get?_upsert, VersionRow.manifestKey, if_true, Option.isSome_some]
  | createPreview version =>
    simp only [Finalizing.next] at ran
    split at ran
    · cases ran
      exact held
    · cases ran
      exact held
  | previewCommit version =>
    cases ran
    exact ⟨hasRow_store held.1, stored_store held.2 relied.quiet⟩
  | finalized version => cases ran
  | refused error => cases ran

/-- What a request relies on survives the steps of the others. -/
private theorem Relied.others {position : StorageRequest} (relied : Relied asked org session)
    (theirs : Relied asked org other) (exclusive : (finalizeServer hash quota asked).Exclusive session other)
    (ran : other.position.next hash quota input ((finalizeServer hash quota asked).view org other) =
      some (effect, position)) :
    Relied asked ((finalizeServer hash quota asked).store org other.pending effect) session := by
  refine ⟨fun finalizing here => ?_, relied.creates, relied.created, relied.quiet⟩
  have held := relied.finalizing finalizing here
  cases finalizing with
  | verifyManifest r => exact held
  | verifyFiles r rest verified => exact held
  | putManifest files version => exact ⟨hasRow_store held.1, held.2⟩
  | createPreview version => exact ⟨hasRow_store held.1, stored_store held.2 theirs.quiet⟩
  | previewCommit version => exact ⟨hasRow_store held.1, stored_store held.2 theirs.quiet⟩
  | finalized version => exact ⟨hasRow_store held.1, stored_store held.2 theirs.quiet⟩
  | refused error => trivial
  | create files creating =>
    obtain ⟨r, was, same, held⟩ := held
    refine ⟨r, was, same, ?_⟩
    cases creating with
    | existing p version => exact ⟨held.1, hasRow_store held.2⟩
    | returned p version => exact ⟨held.1, hasRow_store held.2⟩
    | created p version =>
      refine ⟨held.1, ?_⟩
      have mine := relied.created files p version here
      cases effect with
      | commit =>
        refine applyAll_free held.2 fun row mem taken => ?_
        -- Both have locked the id.
        refine exclusive (.version version.id) ?_ ?_
        · exact List.mem_flatMap.mpr ⟨_, mine, List.mem_cons_self⟩
        · exact List.mem_flatMap.mpr ⟨_, mem, taken ▸ List.mem_cons_self⟩
      | outside change =>
        refine apply_free held.2 fun row same => ?_
        cases same
        cases StorageRequest.next_outside ran
      | _ => exact held.2
    | _ => exact held

/-- A request that has created a version has just written its row. -/
private theorem next_created {position : StorageRequest} {pending : List Change} {request : StorageRequest}
    {files : List (Text × ManifestTarget)} {p : CreateSiteVersionParams}
    (ran : request.next hash quota input org = some (effect, position))
    (here : position = .finalize (.create files (.created p version))) :
    Change.siteVersion version ∈ Server.pending pending effect := by
  subst here
  cases request with
  | publish before =>
    obtain ⟨_, -, same⟩ := StorageRequest.next_publish ran
    cases same
  | seed before =>
    obtain ⟨_, -, same⟩ := StorageRequest.next_seed ran
    cases same
  | collect before =>
    obtain ⟨_, -, same⟩ := StorageRequest.next_collect ran
    cases same
  | upload sha bytes => cases ran
  | uploaded => cases ran
  | finalize before =>
    obtain ⟨later, step, same⟩ := StorageRequest.next_finalize ran
    cases same
    cases before with
    | create files creating =>
      rcases Finalizing.next_create step with ⟨_, _, _, _, same⟩ | ⟨_, _, _, same⟩ | ⟨later, made, same⟩
      · cases same
      · cases same
      · cases same
        cases creating with
        | createSiteVersion p versionNo =>
          simp only [Creating.next] at made
          split at made
          · cases made
          split at made
          · cases made
          · cases made
            exact List.mem_append_right _ List.mem_cons_self
        | getSite p =>
          simp only [Creating.next] at made
          split at made <;> cases made
        | getSiteVersionByContentHash p =>
          simp only [Creating.next] at made
          split at made <;> cases made
        | accountStorage p metering =>
          simp only [Creating.next] at made
          split at made <;> cases made
        | nextVersionNo | existing | created | returned | failed => cases made
    | verifyManifest r =>
      simp only [Finalizing.next] at step
      split at step
      · cases step
      split at step
      · cases step
      split at step <;> cases step
    | verifyFiles r rest verified =>
      cases rest with
      | nil => cases step
      | cons file rest =>
        simp only [Finalizing.next] at step
        split at step
        · cases step
        split at step <;> cases step
    | putManifest files version =>
      simp only [Finalizing.next] at step
      split at step <;> cases step
    | createPreview version =>
      simp only [Finalizing.next] at step
      split at step <;> cases step
    | previewCommit | finalized | refused => cases step

private theorem Relied.request {position : StorageRequest} (relied : Relied asked org session)
    (ran : session.position.next hash quota input ((finalizeServer hash quota asked).view org session) =
      some (effect, position)) :
    Relied asked ((finalizeServer hash quota asked).store org session.pending effect)
      ⟨position, Server.pending session.pending effect⟩ := by
  obtain ⟨request, pending⟩ := session
  constructor
  · intro later same
    cases same
    cases request with
    | finalize before =>
      obtain ⟨moved, step, same⟩ := StorageRequest.next_finalize ran
      cases same
      exact finalizing_relied relied step
    | publish before =>
      obtain ⟨_, -, same⟩ := StorageRequest.next_publish ran
      cases same
    | seed before =>
      obtain ⟨_, -, same⟩ := StorageRequest.next_seed ran
      cases same
    | collect before =>
      obtain ⟨_, -, same⟩ := StorageRequest.next_collect ran
      cases same
    | upload sha bytes => cases ran
    | uploaded => cases ran
  · intro row mem
    have kept : Change.siteVersion row ∈ pending → effect = .commit := by
      intro before
      obtain ⟨files, p, here⟩ := relied.creates row before
      cases here
      cases ran
      rfl
    cases effect with
    | read keys => cases kept mem
    | outside made => cases kept mem
    | commit => cases mem
    | rollback => cases mem
    | write made =>
      rcases List.mem_append.mp mem with mem | mem
      · cases kept mem
      · rw [← List.mem_singleton.mp mem] at ran
        exact StorageRequest.next_siteVersion ran
  · intro files p row here
    exact next_created ran here
  · intro change mem
    cases effect with
    | read keys => exact relied.quiet change mem
    | outside made => exact relied.quiet change mem
    | commit => cases mem
    | rollback => cases mem
    | write made =>
      rcases List.mem_append.mp mem with mem | mem
      · exact relied.quiet change mem
      · rw [List.mem_singleton.mp mem]
        exact StorageRequest.next_write ran

/-- Of the steps that change the store outside of a transaction, only a finalize's
write changes a manifest of the site. -/
private theorem outside_spares {position request : StorageRequest}
    (ran : request.next hash quota input org = some (.outside change, position)) :
    (∃ files version, request = .finalize (.putManifest files version) ∧
      change = .putManifest ⟨version.manifestKey, files⟩) ∨ change.Spares siteId := by
  cases request with
  | finalize before =>
    obtain ⟨later, step, -⟩ := StorageRequest.next_finalize ran
    obtain ⟨files, version, rfl, same, -⟩ := Finalizing.next_outside step
    exact .inl ⟨files, version, rfl, same⟩
  | publish before =>
    obtain ⟨later, step, -⟩ := StorageRequest.next_publish ran
    exact absurd step Publishing.next_outside
  | seed before =>
    obtain ⟨later, step, -⟩ := StorageRequest.next_seed ran
    refine .inr fun manifest same versionId key => ?_
    rcases Seeding.next_outside step with ⟨_, _, _, _, made, _⟩ | ⟨_, _, _, _, made, _⟩
    · rw [made] at same
      cases same
    · rw [made] at same
      cases same
      cases key
  | collect before =>
    obtain ⟨later, step, -⟩ := StorageRequest.next_collect ran
    obtain ⟨_, _, _, _, made, _⟩ := Collecting.next_outside step
    refine .inr fun manifest same => ?_
    rw [made] at same
    cases same
  | upload sha bytes =>
    cases ran
    exact .inr fun manifest same => by cases same
  | uploaded => cases ran

theorem content_discipline : (finalizeServer hash quota asked).Discipline (Faithful siteId asked) (Relied asked)
    (fun _ _ => True) (fun _ _ _ => True) where
  arrives {org position} _ admitted := by
    obtain ⟨starts, sent⟩ := admitted
    refine ⟨fun finalizing here => ?_, fun row mem => (List.not_mem_nil mem).elim, fun files p row here => ?_,
      fun change mem => (List.not_mem_nil mem).elim⟩
    · change position = .finalize finalizing at here
      cases starts with
      | finalize r =>
        cases here
        exact sent r rfl
      | publish | seed | collect | upload => cases here
    · change position = _ at here
      cases starts <;> cases here
  store {org session input effect position} recorded relied _ ran := by
    cases effect with
    | commit => exact applyAll_recorded recorded relied.quiet
    | outside change =>
      rcases outside_spares ran with ⟨files, version, here, rfl⟩ | spares
      · obtain ⟨has, content⟩ := relied.finalizing _ here
        exact recorded.putManifest has content
      · exact recorded.apply spares
    | _ => exact recorded
  request _ relied _ ran := relied.request ran
  others _ relied theirs _ _ _ exclusive ran := relied.others theirs exclusive ran

/-! ### Runs -/

/-- Where the requests agree, a write of a version's content changes nothing. -/
private theorem putManifest_same (agree : Agree siteId asked) (recorded : Faithful siteId asked org)
    {files : List (Text × ManifestTarget)} {manifest : Manifest} {versionId : Text} (has : HasRow org version)
    (content : Content asked version files) (stored : org.manifests.get? (.site siteId versionId) = some manifest) :
    ((Change.putManifest ⟨version.manifestKey, files⟩).apply org).manifests.get? (.site siteId versionId) =
      some manifest := by
  simp only [Change.apply, Table.get?_upsert]
  split
  · rename_i same
    cases same
    obtain ⟨row, found, site, other, wasOther, own, digest, old⟩ := recorded _ _ stored
    obtain ⟨row', found', site', hashed⟩ := has
    rw [found] at found'
    cases found'
    obtain ⟨r, was, own', digest', new⟩ := content
    have equal : files = manifest.files := by
      rw [new, old]
      exact agree r other was wasOther own' (own.trans site) (digest'.trans (hashed.symm.trans digest.symm))
    rw [stored, Option.elim_some, equal]
  · exact stored

private theorem stored_kept (agree : Agree siteId asked)
    (sound : (finalizeServer hash quota asked).Sound (Faithful siteId asked) (Relied asked) state)
    (step : (finalizeServer hash quota asked).Step state next) {versionId : Text} {manifest : Manifest}
    (stored : state.committed.manifests.get? (.site siteId versionId) = some manifest) :
    next.committed.manifests.get? (.site siteId versionId) = some manifest := by
  cases step with
  | arrive free admitted => exact stored
  | stop => exact stored
  | @act i session effect position input running ran unlocked =>
    have relied := sound.sessions i session running
    cases effect with
    | commit =>
      change ((finalizeServer hash quota asked).applyAll session.pending state.committed).manifests.get? _ = _
      rw [applyAll_manifests relied.quiet]
      exact stored
    | outside change =>
      rcases outside_spares ran with ⟨files, version, here, rfl⟩ | spares
      · obtain ⟨has, content⟩ := relied.finalizing _ here
        exact putManifest_same agree sound.store has content stored
      · exact (spares.get? versionId).trans stored
    | _ => exact stored

private theorem sound_run {first : State OrgStorage Change StorageRequest}
    (sound : (finalizeServer hash quota asked).Sound (Faithful siteId asked) (Relied asked) first)
    (run : Relation.ReflTransGen (finalizeServer hash quota asked).Step first final) :
    (finalizeServer hash quota asked).Sound (Faithful siteId asked) (Relied asked) final := by
  induction run with
  | refl => exact sound
  | tail _ step ih => exact ih.step content_discipline (Server.orderly_trivial _) step

/-- The manifest of a version is there and does not change in a run. -/
def Unmoved (asked : FinalizeRequest → Prop) (version : VersionRow) (state final : State OrgStorage Change StorageRequest) :
    Prop :=
  ∃ files, Content asked version files ∧
    state.committed.manifests.get? version.manifestKey = some ⟨version.manifestKey, files⟩ ∧
    final.committed.manifests.get? version.manifestKey = some ⟨version.manifestKey, files⟩

/-- A site that has no manifest yet. -/
def Undeployed (siteId : Text) (start : OrgStorage) : Prop :=
  ∀ versionId, start.manifests.get? (.site siteId versionId) = none

/-- In runs whose requests for the site have the same files wherever they have the same
digest, a version that a finalize has answered with keeps the manifest it has then. -/
theorem version_settled (agree : Agree siteId asked) (undeployed : Undeployed siteId start)
    (run : Relation.ReflTransGen (finalizeServer hash quota asked).Step (Server.idle start) state)
    (later : Relation.ReflTransGen (finalizeServer hash quota asked).Step state final) {i : Nat}
    {pending : List Change} (answered : state.sessions i = some ⟨.finalize (.finalized version), pending⟩)
    (own : version.siteId = siteId) : Unmoved asked version state final := by
  have fresh : Faithful siteId asked start := by
    intro versionId manifest stored
    rw [undeployed versionId] at stored
    cases stored
  have sound := sound_run (.of_idle fresh) run
  obtain ⟨has, written⟩ := (sound.sessions i _ answered).finalizing _ rfl
  obtain ⟨manifest, stored⟩ := Option.isSome_iff_exists.mp written
  have site : version.manifestKey = .site siteId version.id := by rw [VersionRow.manifestKey, own]
  have keyed : manifest.key = version.manifestKey := Table.get?_key stored
  rw [site] at stored
  obtain ⟨row, found, same, content⟩ := sound.store _ _ stored
  obtain ⟨row', found', -, hashed⟩ := has
  rw [found] at found'
  cases found'
  have last : final.committed.manifests.get? (.site siteId version.id) = some manifest := by
    clear answered
    induction later with
    | refl => exact stored
    | tail before step ih => exact stored_kept agree (sound_run sound before) step ih
  have whole : manifest = ⟨version.manifestKey, manifest.files⟩ := by rw [← keyed]
  refine ⟨manifest.files, content.congr (own.trans same.symm) hashed.symm, ?_, ?_⟩
  · rw [site] at whole ⊢
    exact stored.trans (congrArg some whole)
  · rw [site] at whole ⊢
    exact last.trans (congrArg some whole)

/-! A page is finalized again, once as it was and once with a content type. -/

/-- The manifest that a finalize arrives with. -/
def StorageRequest.arriving : StorageRequest → Option FinalizeRequest
  | .finalize (.verifyManifest r) => some r
  | _ => none

private theorem arriving_eq_some {request : StorageRequest} {r : FinalizeRequest} :
    request.arriving = some r ↔ request = .finalize (.verifyManifest r) := by
  constructor
  · intro found
    unfold StorageRequest.arriving at found
    split at found
    · cases found
      rfl
    · cases found
  · intro same
    rw [same]
    rfl

private theorem admits_iff {request : StorageRequest} :
    (request.Starts ∧ ∀ r ∈ request.arriving, asked r) ↔ (finalizeServer hash quota asked).admits request :=
  and_congr_right fun _ => forall_congr' fun _ => imp_congr_left arriving_eq_some

instance [DecidablePred asked] : DecidablePred (finalizeServer hash quota asked).admits :=
  fun _ => decidable_of_iff _ admits_iff

def pageRequest : FinalizeRequest := ⟨['s'], [pageFile], pageDigest⟩

def htmlRequest : FinalizeRequest := ⟨['s'], [{ pageFile with contentType := "text/html".toList }], pageDigest⟩

def pageVersion : VersionRow := ⟨['v'], ['s'], 1, .ready, pageDigest, none⟩

/-- The version as the second finalize finds it, with its preview. -/
def pageAgain : VersionRow := { pageVersion with previewExpiresAt := some (Timestamptz.ofTime defaultPreviewTTL) }

/-- The first finalize, from its arrival to its answer. -/
def finalizePage : List (Server.Move Input StorageRequest) := .arrive 0 pageFinalize :: pageMoves 0 false 19

/-- A second one, which finds the version. -/
def finalizeAgain (r : FinalizeRequest) : List (Server.Move Input StorageRequest) :=
  .arrive 1 (.finalize (.verifyManifest r)) :: pageMoves 1 false 10

private theorem page_idle : Server.Below 2 (Server.idle pageStorage : State OrgStorage Change StorageRequest) :=
  fun _ _ => rfl

private theorem performed_run [DecidablePred asked] {moves : List (Server.Move Input StorageRequest)}
    (below : Server.Below 2 state)
    (performed : (finalizeServer pageHash unmetered asked).performAll 2 (fun _ _ => true) moves state = some final) :
    Relation.ReflTransGen (finalizeServer pageHash unmetered asked).Step state final ∧ Server.Below 2 final :=
  ⟨Relation.ReflTransGen.mono (fun _ _ step => step.1) _ _ (Server.performAll_run below performed),
    Server.performAll_below below performed⟩

private theorem page_undeployed : Undeployed ['s'] pageStorage := fun _ => rfl

/-- The page is finalized twice, and its manifest stays. -/
theorem page_settled : ∃ state final,
    Relation.ReflTransGen (finalizeServer pageHash unmetered (· = pageRequest)).Step state final ∧
      final.sessions 1 = some ⟨.finalize (.finalized pageAgain), []⟩ ∧
      Unmoved (· = pageRequest) pageVersion state final := by
  have performed : ((finalizeServer pageHash unmetered (· = pageRequest)).performAll 2 (fun _ _ => true) finalizePage
      (Server.idle pageStorage)).map (fun state => state.sessions 0) =
        some (some ⟨.finalize (.finalized pageVersion), []⟩) := rfl
  have again : (((finalizeServer pageHash unmetered (· = pageRequest)).performAll 2 (fun _ _ => true) finalizePage
      (Server.idle pageStorage)).bind fun state => (finalizeServer pageHash unmetered (· = pageRequest)).performAll 2
        (fun _ _ => true) (finalizeAgain pageRequest) state).map (fun final => final.sessions 1) =
          some (some ⟨.finalize (.finalized pageAgain), []⟩) := rfl
  obtain ⟨state, ran, answered⟩ := Option.map_eq_some_iff.mp performed
  rw [ran, Option.bind_some] at again
  obtain ⟨final, reran, finished⟩ := Option.map_eq_some_iff.mp again
  obtain ⟨run, below⟩ := performed_run page_idle ran
  have later := (performed_run below reran).1
  have agree : Agree ['s'] (· = pageRequest) := by
    intro r other was wasOther _ _ _
    rw [was, wasOther]
  exact ⟨state, final, later, finished, version_settled agree page_undeployed run later answered rfl⟩

/-- The second finalize changes the content type of the version that the first answered with. -/
theorem page_unsettled : ¬ ∀ (hash : Sha256) (quota : StorageQuota) (asked : FinalizeRequest → Prop) (siteId : Text)
    (start : OrgStorage) (state final : State OrgStorage Change StorageRequest) (version : VersionRow) (i : Nat)
    (pending : List Change), Undeployed siteId start →
    Relation.ReflTransGen (finalizeServer hash quota asked).Step (Server.idle start) state →
    Relation.ReflTransGen (finalizeServer hash quota asked).Step state final →
    state.sessions i = some ⟨.finalize (.finalized version), pending⟩ → version.siteId = siteId →
    Unmoved asked version state final := by
  intro settled
  have performed : ((finalizeServer pageHash unmetered fun _ => True).performAll 2 (fun _ _ => true) finalizePage
      (Server.idle pageStorage)).map (fun state => (state.sessions 0, state.committed.manifests.rows)) =
        some (some ⟨.finalize (.finalized pageVersion), []⟩, [⟨.site ['s'] ['v'], [(['a'], ⟨pageSha, [], 2⟩)]⟩]) := rfl
  have again : (((finalizeServer pageHash unmetered fun _ => True).performAll 2 (fun _ _ => true) finalizePage
      (Server.idle pageStorage)).bind fun state => (finalizeServer pageHash unmetered fun _ => True).performAll 2
        (fun _ _ => true) (finalizeAgain htmlRequest) state).map (fun final => final.committed.manifests.rows) =
          some [⟨.site ['s'] ['v'], [(['a'], ⟨pageSha, "text/html".toList, 2⟩)]⟩] := rfl
  obtain ⟨state, ran, same⟩ := Option.map_eq_some_iff.mp performed
  rw [ran, Option.bind_some] at again
  obtain ⟨final, reran, after⟩ := Option.map_eq_some_iff.mp again
  obtain ⟨answered, before⟩ := Prod.mk.injEq .. ▸ same
  obtain ⟨run, below⟩ := performed_run page_idle ran
  obtain ⟨files, -, first, last⟩ := settled pageHash unmetered (fun _ => True) ['s'] pageStorage state final pageVersion
    0 [] page_undeployed run (performed_run below reran).1 answered rfl
  rw [Table.get?, before] at first
  rw [Table.get?, after] at last
  cases first
  cases last

end Dropway.Api
