import Dropway.Proofs.BlobClaims
import Dropway.Proofs.LedgerBooks

/-! A blob that is uploaded again while a pass that has deleted it still holds its
row of the ledger is found there by a deploy, and the pass then drops the row.
Where no upload comes so, the ledger has every blob that a version refers to. -/

namespace Dropway.Api
open Lib
open Lib.ReadCommitted (Session State)

variable {hash : Sha256} {quota : StorageQuota} {org start : OrgStorage} {key : ManifestKey} {sha : Text}
  {change : Change} {changes : List Change} {session later : Session Change StorageRequest}
  {request position : StorageRequest} {input : Input} {effect : Effect Change LockKey} {i : Nat}
  {state next final : State OrgStorage Change StorageRequest}

/-- Every blob that a version's manifest refers to and that is there is in the ledger. -/
def Accounted (org : OrgStorage) : Prop :=
  ∀ key, Recorded org key → ∀ sha ∈ org.references key, Present org sha → Metered org sha

/-- In the ledger, or put there by the request itself. -/
def Counted (org : OrgStorage) (session : Session Change StorageRequest) (sha : Text) : Prop :=
  Metered org sha ∨ ∃ row, Change.orgBlob row ∈ session.pending ∧ row.contentHash = sha

def Recording (changes : List Change) (key : ManifestKey) : Prop :=
  (∃ row, Change.siteVersion row ∈ changes ∧ row.manifestKey = key) ∨
    ∃ row, Change.skillVersion row ∈ changes ∧ row.manifestKey = key

/-- There is a version with its manifest under the key, committed or not. -/
def Known (state : State OrgStorage Change StorageRequest) (key : ManifestKey) : Prop :=
  Recorded state.committed key ∨
    ∃ i session, state.sessions i = some session ∧ Recording session.pending key

/-- No pass is about to drop the blob's row, and whatever refers to the blob has
it in the ledger. -/
structure Uploadable (state : State OrgStorage Change StorageRequest) (sha : Text) : Prop where
  released : ∀ i session, state.sessions i = some session → ¬ session.position.Unreleased sha
  referenced : ∀ key, Known state key → sha ∈ state.committed.references key → Metered state.committed sha
  claimed : ∀ i session, state.sessions i = some session → session.position.Claims sha →
    Counted state.committed session sha
  owed : ∀ i session, state.sessions i = some session → session.position.Owes sha →
    Metered state.committed sha

/-- A blob that is not there is uploaded only where it may be, and a deploy that
takes a version it has found refers to no blob that the ledger lacks. -/
structure Charged (before after : State OrgStorage Change StorageRequest) : Prop where
  uploads : ∀ sha, ¬ Present before.committed sha → Present after.committed sha → Uploadable before sha
  reuses : ∀ i session later, before.sessions i = some session → after.sessions i = some later →
    ∀ sha, session.position.Reuses sha → later.position.Owes sha → Present before.committed sha →
      Metered before.committed sha

section Changes

private theorem apply_metered_of (metered : Metered (change.apply org) sha) :
    Metered org sha ∨ ∃ row, change = .orgBlob row ∧ row.contentHash = sha := by
  unfold Metered at metered ⊢
  cases change with
  | orgBlob row =>
    simp only [Change.apply, Table.get?_upsert] at metered
    split at metered
    · rename_i same
      exact .inr ⟨row, rfl, same⟩
    · exact .inl metered
  | dropOrgBlob gone =>
    simp only [Change.apply, Table.get?_delete] at metered
    cases found : org.orgBlobs.get? sha with
    | none =>
      rw [found] at metered
      cases metered
    | some row => exact .inl rfl
  | _ => exact .inl metered

private theorem applyAll_metered_of (metered : Metered ((storageServer hash quota).applyAll changes org) sha) :
    Metered org sha ∨ ∃ row, Change.orgBlob row ∈ changes ∧ row.contentHash = sha := by
  induction changes generalizing org with
  | nil => exact .inl metered
  | cons change rest ih =>
    rcases ih metered with before | ⟨row, mem, same⟩
    · rcases apply_metered_of before with before | ⟨row, rfl, same⟩
      · exact .inl before
      · exact .inr ⟨row, List.mem_cons_self, same⟩
    · exact .inr ⟨row, List.mem_cons_of_mem change mem, same⟩

private theorem apply_metered (kept : change ≠ .dropOrgBlob sha) (metered : Metered org sha) :
    Metered (change.apply org) sha := by
  unfold Metered at metered ⊢
  cases change with
  | orgBlob row =>
    simp only [Change.apply, Table.get?_upsert]
    split
    · rfl
    · exact metered
  | dropOrgBlob gone =>
    have apart : sha ≠ gone := fun same => kept (same ▸ rfl)
    obtain ⟨row, found⟩ := Option.isSome_iff_exists.mp metered
    simp [Change.apply, Table.get?_delete, found, Table.get?_key found, apart]
  | _ => exact metered

private theorem applyAll_metered (kept : Change.dropOrgBlob sha ∉ changes) (metered : Metered org sha) :
    Metered ((storageServer hash quota).applyAll changes org) sha := by
  induction changes generalizing org with
  | nil => exact metered
  | cons change rest ih =>
    rw [List.mem_cons, not_or] at kept
    exact ih kept.2 (apply_metered (fun same => kept.1 same.symm) metered)

private theorem applyAll_inserted {row : OrgBlob} (kept : Change.dropOrgBlob row.contentHash ∉ changes)
    (mem : Change.orgBlob row ∈ changes) :
    Metered ((storageServer hash quota).applyAll changes org) row.contentHash := by
  induction changes generalizing org with
  | nil => cases mem
  | cons change rest ih =>
    rw [List.mem_cons, not_or] at kept
    rcases List.mem_cons.mp mem with rfl | mem
    · apply applyAll_metered kept.2
      simp [Metered, Change.apply, storageServer, Table.get?_upsert]
    · exact ih kept.2 mem

private theorem applyAll_stores (rows : ∀ change ∈ changes, ¬ change.Stores) :
    ((storageServer hash quota).applyAll changes org).blobs = org.blobs ∧
      ((storageServer hash quota).applyAll changes org).manifests = org.manifests := by
  induction changes generalizing org with
  | nil => exact ⟨rfl, rfl⟩
  | cons change rest ih =>
    have here : (change.apply org).blobs = org.blobs ∧ (change.apply org).manifests = org.manifests := by
      have row := rows change List.mem_cons_self
      cases change with
      | putBlob blob => exact absurd (.putBlob blob) row
      | deleteBlob sha => exact absurd (.deleteBlob sha) row
      | putManifest manifest => exact absurd (.putManifest manifest) row
      | _ => exact ⟨rfl, rfl⟩
    obtain ⟨blobs, manifests⟩ := ih fun other mem => rows other (List.mem_cons_of_mem change mem)
    exact ⟨blobs.trans here.1, manifests.trans here.2⟩

private theorem apply_recorded_of (recorded : Recorded (change.apply org) key) :
    Recorded org key ∨ Recording [change] key := by
  rcases recorded with listed | ⟨version, mem, same⟩
  · rcases Change.listed_of listed with before | ⟨row, rfl, same⟩
    · exact .inl (.inl before)
    · exact .inr (.inl ⟨row, List.mem_cons_self, same⟩)
  · cases change with
    | skillVersion row =>
      rcases Table.mem_upsert mem with old | rfl | ⟨old, found, made⟩
      · exact .inl (.inr ⟨version, old, same⟩)
      · exact .inr (.inr ⟨version, List.mem_cons_self, same⟩)
      · rw [made] at same
        exact .inl (.inr ⟨old, (Table.get?_eq_some.mp found).1, same⟩)
    | _ => exact .inl (.inr ⟨version, mem, same⟩)

private theorem Recording.mono {more : List Change} (recording : Recording changes key)
    (sub : ∀ change ∈ changes, change ∈ more) : Recording more key := by
  rcases recording with ⟨row, mem, same⟩ | ⟨row, mem, same⟩
  · exact .inl ⟨row, sub _ mem, same⟩
  · exact .inr ⟨row, sub _ mem, same⟩

private theorem applyAll_recorded_of
    (recorded : Recorded ((storageServer hash quota).applyAll changes org) key) :
    Recorded org key ∨ Recording changes key := by
  induction changes generalizing org with
  | nil => exact .inl recorded
  | cons change rest ih =>
    rcases ih recorded with before | recording
    · rcases apply_recorded_of before with before | recording
      · exact .inl before
      · refine .inr (recording.mono fun other mem => ?_)
        exact List.mem_singleton.mp mem ▸ List.mem_cons_self
    · exact .inr (recording.mono fun other mem => List.mem_cons_of_mem change mem)

end Changes

/-- What a request counts on is in the ledger, as far as it is there at all. -/
structure Settled (org : OrgStorage) (session : Session Change StorageRequest) : Prop where
  claimed : ∀ sha, session.position.Claims sha → Present org sha → Counted org session sha
  owed : ∀ sha, session.position.Owes sha → Present org sha → Metered org sha
  gone : ∀ sha, session.position.Unreleased sha → ¬ Present org sha
  dropped : ∀ sha, Change.dropOrgBlob sha ∈ session.pending → session.position.Releases sha
  rows : ∀ change ∈ session.pending, ¬ change.Stores
  formed : session.position.Formed

structure Ledgered (state : State OrgStorage Change StorageRequest) : Prop where
  referenced : ∀ key, Known state key → ∀ sha ∈ state.committed.references key,
    Present state.committed sha → Metered state.committed sha
  sessions : ∀ i session, state.sessions i = some session → Settled state.committed session

theorem StorageRequest.Releases.unreleased (releases : request.Releases sha) : request.Unreleased sha := by
  cases request with
  | collect position => cases position <;> first | exact releases | exact releases.elim
  | _ => exact releases.elim

section Acts

/-- A row that a step drops is one of a blob that is not there. -/
private theorem dropped_absent (settled : Settled org session)
    (dropped : Change.dropOrgBlob sha ∈ session.pending) : ¬ Present org sha :=
  settled.gone sha (settled.dropped sha dropped).unreleased

private theorem commit_present (settled : Settled org session)
    (present : Present ((storageServer hash quota).store org session.pending .commit) sha) : Present org sha := by
  have same : ((storageServer hash quota).applyAll session.pending org).blobs = org.blobs :=
    (applyAll_stores settled.rows).1
  rwa [Present, Server.store, same] at present

private theorem store_metered (settled : Settled org session) (metered : Metered org sha)
    (stores : ∀ change, effect = .outside change → change.Stores)
    (present : Present ((storageServer hash quota).store org session.pending effect) sha) :
    Metered ((storageServer hash quota).store org session.pending effect) sha := by
  cases effect with
  | commit =>
    by_cases dropped : Change.dropOrgBlob sha ∈ session.pending
    · exact absurd (commit_present settled present) (dropped_absent settled dropped)
    · exact applyAll_metered dropped metered
  | outside change =>
    apply apply_metered _ metered
    intro same
    cases stores change rfl <;> cases same
  | _ => exact metered

private theorem store_references (settled : Settled org session)
    (referenced : sha ∈ ((storageServer hash quota).store org session.pending effect).references key) :
    sha ∈ org.references key ∨ ∃ manifest, effect = .outside (.putManifest manifest) ∧
      ∃ file ∈ manifest.files, file.2.sha256 = sha := by
  cases effect with
  | commit =>
    have same : ((storageServer hash quota).applyAll session.pending org).manifests = org.manifests :=
      (applyAll_stores settled.rows).2
    rw [OrgStorage.references, Server.store, same] at referenced
    exact .inl referenced
  | outside change =>
    cases change with
    | putManifest manifest =>
      simp only [OrgStorage.references, Server.store, storageServer, Change.apply, Table.get?_upsert] at referenced
      split at referenced
      · refine .inr ⟨manifest, rfl, List.mem_map.mp ?_⟩
        cases found : org.manifests.get? key with
        | none => simpa [found] using referenced
        | some old => simpa [found] using referenced
      · exact .inl referenced
    | _ => exact .inl referenced
  | _ => exact .inl referenced

private theorem view_counted
    (metered : Metered ((storageServer hash quota).view org session) sha) : Counted org session sha :=
  applyAll_metered_of metered

/-- What a step leaves of the store: it uploads only what it may, and the ledger
keeps the rows of all that is there. -/
structure Leaves (state : State OrgStorage Change StorageRequest) (org : OrgStorage) : Prop where
  uploads : ∀ sha, Present org sha → Present state.committed sha ∨ Uploadable state sha
  metered : ∀ sha, Metered state.committed sha → Present org sha → Metered org sha

private theorem Leaves.counted (leaves : Leaves state org) (present : Present org sha)
    (counted : Counted state.committed session sha) : Counted org session sha :=
  counted.imp_left fun metered => leaves.metered sha metered present

private theorem Leaves.claimed (leaves : Leaves state org) (ledgered : Ledgered state)
    (running : state.sessions i = some session) (claims : session.position.Claims sha)
    (present : Present org sha) : Counted org session sha := by
  apply leaves.counted present
  rcases leaves.uploads sha present with before | uploadable
  · exact (ledgered.sessions i session running).claimed sha claims before
  · exact uploadable.claimed i session running claims

private theorem Leaves.owed (leaves : Leaves state org) (ledgered : Ledgered state)
    (running : state.sessions i = some session) (owes : session.position.Owes sha)
    (present : Present org sha) : Metered org sha := by
  refine leaves.metered sha ?_ present
  rcases leaves.uploads sha present with before | uploadable
  · exact (ledgered.sessions i session running).owed sha owes before
  · exact uploadable.owed i session running owes

private theorem Leaves.gone (leaves : Leaves state org) (ledgered : Ledgered state)
    (running : state.sessions i = some session) (unreleased : session.position.Unreleased sha) :
    ¬ Present org sha := by
  intro present
  rcases leaves.uploads sha present with before | uploadable
  · exact (ledgered.sessions i session running).gone sha unreleased before
  · exact uploadable.released i session running unreleased

private theorem Leaves.settled (leaves : Leaves state org) (ledgered : Ledgered state)
    (running : state.sessions i = some session) : Settled org session where
  claimed _ claims present := leaves.claimed ledgered running claims present
  owed _ owes present := leaves.owed ledgered running owes present
  gone _ unreleased := leaves.gone ledgered running unreleased
  dropped := (ledgered.sessions i session running).dropped
  rows := (ledgered.sessions i session running).rows
  formed := (ledgered.sessions i session running).formed

variable (ledgered : Ledgered state) (running : state.sessions i = some session)
  (ran : session.position.next hash quota input ((storageServer hash quota).view state.committed session) =
    some (effect, position))
  (charged : Charged state ((storageServer hash quota).after state i session effect position))
include ledgered running ran charged

private theorem act_leaves : Leaves state
    ((storageServer hash quota).store state.committed session.pending effect) where
  uploads sha present := by
    by_cases before : Present state.committed sha
    · exact .inl before
    · exact .inr (charged.uploads sha before present)
  metered sha metered present := by
    refine store_metered (ledgered.sessions i session running) metered (fun change same => ?_) present
    rw [same] at ran
    exact StorageRequest.next_outside ran

private theorem act_claimed (claims : position.Claims sha)
    (present : Present ((storageServer hash quota).store state.committed session.pending effect) sha) :
    Counted ((storageServer hash quota).store state.committed session.pending effect)
      ⟨position, Server.pending session.pending effect⟩ sha := by
  have settled := ledgered.sessions i session running
  have charges := StorageRequest.next_charges settled.formed ran
  have leaves := act_leaves ledgered running ran charged
  have counted : Counted ((storageServer hash quota).store state.committed session.pending effect) session sha ∨
      ∃ row, effect = .write (.orgBlob row) ∧ row.contentHash = sha := by
    rcases charges.claims sha claims with before | metered | written
    · exact .inl (leaves.claimed ledgered running before present)
    · exact .inl (leaves.counted present (view_counted metered))
    · exact .inr written
  rcases counted with (metered | ⟨row, mem, same⟩) | ⟨row, rfl, same⟩
  · exact .inl metered
  · cases effect with
    | write change => exact .inr ⟨row, List.mem_append_left _ mem, same⟩
    | commit => exact absurd claims (charges.ended (.inl rfl) sha)
    | rollback => exact absurd claims (charges.ended (.inr rfl) sha)
    | read keys => exact .inr ⟨row, mem, same⟩
    | outside change => exact .inr ⟨row, mem, same⟩
  · exact .inr ⟨row, List.mem_append_right _ List.mem_cons_self, same⟩

private theorem act_owed (owes : position.Owes sha)
    (present : Present ((storageServer hash quota).store state.committed session.pending effect) sha) :
    Metered ((storageServer hash quota).store state.committed session.pending effect) sha := by
  have settled := ledgered.sessions i session running
  have charges := StorageRequest.next_charges settled.formed ran
  have leaves := act_leaves ledgered running ran charged
  rcases charges.owes sha owes with before | ⟨rfl, claims | reuses⟩
  · exact leaves.owed ledgered running before present
  · -- The request's own rows are committed with its version.
    rcases leaves.claimed ledgered running claims present with metered | ⟨row, mem, rfl⟩
    · exact metered
    · exact applyAll_inserted (fun dropped => dropped_absent settled dropped (commit_present settled present)) mem
  · refine leaves.metered sha ?_ present
    refine charged.reuses i session ⟨position, []⟩ running ?_ sha reuses owes (commit_present settled present)
    simp [Server.after, Server.pending]

private theorem act_gone (unreleased : position.Unreleased sha) :
    ¬ Present ((storageServer hash quota).store state.committed session.pending effect) sha := by
  have charges := StorageRequest.next_charges (ledgered.sessions i session running).formed ran
  have leaves := act_leaves ledgered running ran charged
  rcases charges.unreleased sha unreleased with before | rfl
  · exact leaves.gone ledgered running before
  · intro present
    simp only [Present, Server.store, storageServer, Change.apply, Table.get?_delete] at present
    cases found : state.committed.blobs.get? sha with
    | none => simp [found] at present
    | some blob => simp [found, Table.get?_key found] at present

omit charged in
private theorem act_dropped (dropped : Change.dropOrgBlob sha ∈ Server.pending session.pending effect) :
    position.Releases sha := by
  have settled := ledgered.sessions i session running
  have charges := StorageRequest.next_charges settled.formed ran
  have kept : Change.dropOrgBlob sha ∈ session.pending → effect ≠ .commit → effect ≠ .rollback →
      position.Releases sha := by
    intro mem uncommitted unrolled
    rcases charges.releases sha (settled.dropped sha mem) with releases | same | same
    · exact releases
    · exact absurd same uncommitted
    · exact absurd same unrolled
  cases effect with
  | read keys => exact kept dropped (fun same => by cases same) fun same => by cases same
  | outside change => exact kept dropped (fun same => by cases same) fun same => by cases same
  | commit => cases dropped
  | rollback => cases dropped
  | write change =>
    rcases List.mem_append.mp dropped with mem | mem
    · exact kept mem (fun same => by cases same) fun same => by cases same
    · exact charges.drops sha (congrArg Effect.write (List.mem_singleton.mp mem).symm)

omit charged in
private theorem act_rows (change : Change) (mem : change ∈ Server.pending session.pending effect) :
    ¬ change.Stores := by
  have settled := ledgered.sessions i session running
  cases effect with
  | read keys => exact settled.rows change mem
  | outside made => exact settled.rows change mem
  | commit => cases mem
  | rollback => cases mem
  | write made =>
    rcases List.mem_append.mp mem with mem | mem
    · exact settled.rows change mem
    · rw [List.mem_singleton.mp mem]
      exact StorageRequest.next_write ran

private theorem act_settled :
    Settled ((storageServer hash quota).store state.committed session.pending effect)
      ⟨position, Server.pending session.pending effect⟩ where
  claimed _ claims present := act_claimed ledgered running ran charged claims present
  owed _ owes present := act_owed ledgered running ran charged owes present
  gone _ unreleased := act_gone ledgered running ran charged unreleased
  dropped _ dropped := act_dropped ledgered running ran dropped
  rows change mem := act_rows ledgered running ran change mem
  formed := (StorageRequest.next_charges (ledgered.sessions i session running).formed ran).formed

omit charged in
/-- A version that a step records has no manifest yet. -/
private theorem act_known
    (known : Known ((storageServer hash quota).after state i session effect position) key) :
    Known state key ∨ state.committed.manifests.get? key = none := by
  have settled := ledgered.sessions i session running
  have charges := StorageRequest.next_charges settled.formed ran
  have unstored : ((storageServer hash quota).view state.committed session).manifests.get? key = none →
      state.committed.manifests.get? key = none := by
    have same : ((storageServer hash quota).view state.committed session).manifests =
      state.committed.manifests := (applyAll_stores settled.rows).2
    intro none
    rwa [same] at none
  have seen : Recorded ((storageServer hash quota).view state.committed session) key → Known state key := by
    intro recorded
    rcases applyAll_recorded_of recorded with committed | recording
    · exact .inl committed
    · exact .inr ⟨i, session, running, recording⟩
  have pending : Recording (Server.pending session.pending effect) key →
      Known state key ∨ state.committed.manifests.get? key = none := by
    intro recording
    cases effect with
    | read keys => exact .inl (.inr ⟨i, session, running, recording⟩)
    | outside change => exact .inl (.inr ⟨i, session, running, recording⟩)
    | commit => rcases recording with ⟨row, mem, _⟩ | ⟨row, mem, _⟩ <;> cases mem
    | rollback => rcases recording with ⟨row, mem, _⟩ | ⟨row, mem, _⟩ <;> cases mem
    | write change =>
      rcases recording with ⟨row, mem, rfl⟩ | ⟨row, mem, rfl⟩
      · rcases List.mem_append.mp mem with mem | mem
        · exact .inl (.inr ⟨i, session, running, .inl ⟨row, mem, rfl⟩⟩)
        · exact .inr (unstored (charges.siteVersion row (congrArg Effect.write (List.mem_singleton.mp mem).symm)))
      · rcases List.mem_append.mp mem with mem | mem
        · exact .inl (.inr ⟨i, session, running, .inr ⟨row, mem, rfl⟩⟩)
        · rcases charges.skillVersion row (congrArg Effect.write (List.mem_singleton.mp mem).symm) with
            recorded | none
          · exact .inl (seen recorded)
          · exact .inr (unstored none)
  rcases known with recorded | ⟨j, other, otherRunning, recording⟩
  · cases effect with
    | commit => exact .inl (seen recorded)
    | outside change =>
      rcases apply_recorded_of recorded with before | recording
      · exact .inl (.inl before)
      · have stores := StorageRequest.next_outside ran
        rcases recording with ⟨row, mem, _⟩ | ⟨row, mem, _⟩ <;>
          (rw [← List.mem_singleton.mp mem] at stores; cases stores)
    | _ => exact .inl (.inl recorded)
  · simp only [Server.after, Function.update_apply] at otherRunning
    split at otherRunning
    · cases otherRunning
      exact pending recording
    · exact .inl (.inr ⟨j, other, otherRunning, recording⟩)

private theorem act_ledgered : Ledgered ((storageServer hash quota).after state i session effect position) where
  referenced key known sha referenced present := by
    have settled := ledgered.sessions i session running
    have charges := StorageRequest.next_charges settled.formed ran
    have leaves := act_leaves ledgered running ran charged
    rcases store_references settled referenced with before | ⟨manifest, rfl, file, mem, rfl⟩
    · rcases act_known ledgered running ran known with known | none
      · refine leaves.metered sha ?_ present
        rcases leaves.uploads sha present with there | uploadable
        · exact ledgered.referenced key known sha before there
        · exact uploadable.referenced key known before
      · rw [OrgStorage.references, none] at before
        cases before
    · exact leaves.owed ledgered running (charges.manifest manifest rfl file mem) present
  sessions j other otherRunning := by
    simp only [Server.after, Function.update_apply] at otherRunning
    split at otherRunning
    · cases otherRunning
      exact act_settled ledgered running ran charged
    · exact (act_leaves ledgered running ran charged).settled ledgered otherRunning

end Acts

private theorem ledgered_without (ledgered : Ledgered state) {replaced : Option (Session Change StorageRequest)}
    (fresh : ∀ session, replaced = some session → session.pending = [] ∧ Settled state.committed session) :
    Ledgered (state.withSession i replaced) where
  referenced key known sha referenced present := by
    refine ledgered.referenced key ?_ sha referenced present
    rcases known with recorded | ⟨j, session, running, recording⟩
    · exact .inl recorded
    · simp only [State.withSession, Function.update_apply] at running
      split at running
      · rw [(fresh session running).1] at recording
        rcases recording with ⟨row, mem, _⟩ | ⟨row, mem, _⟩ <;> cases mem
      · exact .inr ⟨j, session, running, recording⟩
  sessions j session running := by
    simp only [State.withSession, Function.update_apply] at running
    split at running
    · exact (fresh session running).2
    · exact ledgered.sessions j session running

private theorem starts_settled (starts : position.Starts) : Settled org ⟨position, []⟩ where
  claimed sha claims := by cases starts <;> exact claims.elim
  owed sha owes := by cases starts <;> exact owes.elim
  gone sha unreleased := by cases starts <;> exact unreleased.elim
  dropped sha mem := by cases mem
  rows change mem := by cases mem
  formed := by cases starts <;> exact trivial

theorem Ledgered.step (ledgered : Ledgered state) (step : (storageServer hash quota).Step state next)
    (charged : Charged state next) : Ledgered next := by
  cases step with
  | arrive free admitted =>
    apply ledgered_without ledgered
    intro session same
    cases same
    exact ⟨rfl, starts_settled admitted⟩
  | act input running ran unlocked => exact act_ledgered ledgered running ran charged
  | stop =>
    apply ledgered_without ledgered
    intro session same
    cases same

theorem Ledgered.begins (accounted : Accounted start) : Ledgered (Server.idle start) where
  referenced key known sha referenced present := by
    rcases known with recorded | ⟨i, session, running, _⟩
    · exact accounted key recorded sha referenced present
    · cases running
  sessions i session running := by cases running

/-- As long as every step is charged for, the counter is the sum of the ledger,
and the ledger has every blob that a version refers to and that is there. -/
theorem storage_ledger_counts (balanced : Balanced start) (accounted : Accounted start)
    (run : (storageServer hash quota).Run Charged (Server.idle start) final) :
    final.committed.storageBytes = final.committed.ledgerSum ∧ Accounted final.committed := by
  have invariant : (storageServer hash quota).Sound Balanced (Booked hash quota) final ∧ Ledgered final := by
    induction run with
    | refl => exact ⟨Server.Sound.run storage_balanced balanced .refl, .begins accounted⟩
    | tail _ step ih =>
      exact ⟨ih.1.step storage_balanced (Server.orderly_trivial _) step.1, ih.2.step step.1 step.2⟩
  refine ⟨invariant.1.store, fun key recorded sha referenced present => ?_⟩
  exact invariant.2.referenced key (.inl recorded) sha referenced present

/-! A page's blob, left over from a site that is gone, is deleted by a pass. It is
uploaded again, and the page is deployed before the pass releases the ledger. -/

def leftStorage : OrgStorage :=
  { pageStorage with orgBlobs := .singleton ⟨pageSha, 2⟩, storageBytes := 2 }

theorem left_balanced : Balanced leftStorage := rfl

theorem left_accounted : Accounted leftStorage := by
  intro key recorded sha referenced
  cases referenced

def released : List (Server.Move Input StorageRequest) :=
  [.arrive 0 (.collect (.listVersions ⟨10, 0, false⟩))] ++ pageMoves 0 false 4 ++
    [.arrive 1 (.upload pageSha pageBytes)] ++ pageMoves 1 false 1 ++
    [.arrive 2 pageFinalize] ++ pageMoves 2 false 17 ++ pageMoves 0 false 4

/-- The page is stored, and free of charge. -/
theorem stored_without_row : (Balanced leftStorage ∧ Accounted leftStorage) ∧ ∃ final,
    Relation.ReflTransGen pageServer.Step (Server.idle leftStorage) final ∧ Server.Quiet final ∧
      ¬ (final.committed.storageBytes = final.committed.ledgerSum ∧ Accounted final.committed) := by
  have performed : (pageServer.performAll 3 (fun _ _ => true) released (Server.idle leftStorage)).map
      (fun final => ((List.range 3).all fun i => (final.sessions i).all fun session => session.pending.isEmpty,
        final.committed.siteVersions.rows.map VersionRow.manifestKey,
        final.committed.references (.site ['s'] ['v']),
        (final.committed.blobs.get? pageSha).isSome, (final.committed.orgBlobs.get? pageSha).isSome)) =
      some (true, [.site ['s'] ['v']], [pageSha], true, false) := rfl
  obtain ⟨final, ran, same⟩ := Option.map_eq_some_iff.mp performed
  obtain ⟨closed, versions, refers, there, gone⟩ : _ ∧ _ ∧ _ ∧ _ ∧ _ := by
    simpa only [Prod.mk.injEq] using same
  have idle : Server.Below 3 (Server.idle leftStorage : State OrgStorage Change StorageRequest) :=
    fun _ _ => rfl
  refine ⟨⟨left_balanced, left_accounted⟩, final, Relation.ReflTransGen.mono (fun _ _ step => step.1) _ _
    (Server.performAll_run idle ran), Server.quiet_below (Server.performAll_below idle ran) closed, fun claim => ?_⟩
  have listed : ManifestKey.site ['s'] ['v'] ∈ final.committed.siteVersions.rows.map VersionRow.manifestKey := by
    rw [versions]
    exact List.mem_singleton_self _
  obtain ⟨version, mem, keyed⟩ := List.mem_map.mp listed
  have metered := claim.2 _ (.inl ⟨version, mem, keyed⟩) pageSha (refers ▸ List.mem_singleton_self _) there
  rw [Metered, gone] at metered
  cases metered

def StorageRequest.isUpload : StorageRequest → Bool
  | .upload _ _ | .uploaded => true
  | _ => false

def StorageRequest.isReuse : StorageRequest → Bool
  | .finalize (.create _ (.existing _ _)) => true
  | _ => false

/-- `Charged` for `n` requests, the uploads of which come before all else. -/
def chargedBelow (n : Nat) (before after : State OrgStorage Change StorageRequest) : Bool :=
  (decide (after.committed.blobs.rows.map Blob.sha = before.committed.blobs.rows.map Blob.sha) ||
    before.committed.manifests.rows.isEmpty && (List.range n).all fun i =>
      (before.sessions i).all fun session => session.position.isUpload) &&
  (List.range n).all fun i => (before.sessions i).all fun session => !session.position.isReuse

private theorem present_iff : Present org sha ↔ sha ∈ org.blobs.rows.map Blob.sha := by
  rw [Present, Option.isSome_iff_exists, List.mem_map]
  exact exists_congr fun blob => Table.get?_eq_some

private theorem below_all {n : Nat} (below : Server.Below n state) (check : StorageRequest → Bool)
    (checked : ((List.range n).all fun i => (state.sessions i).all fun session =>
      check session.position) = true) (running : state.sessions i = some session) :
    check session.position = true := by
  by_cases inside : i < n
  · have here := List.all_eq_true.mp checked i (List.mem_range.mpr inside)
    rwa [running, Option.all_some] at here
  · rw [below i (by omega)] at running
    cases running

private theorem upload_calm (sha : Text) (uploads : request.isUpload = true) :
    ¬ request.Unreleased sha ∧ ¬ request.Claims sha ∧ ¬ request.Owes sha := by
  cases request with
  | upload => exact ⟨id, id, id⟩
  | uploaded => exact ⟨id, id, id⟩
  | _ => cases uploads

private theorem reuse_none (fresh : (!request.isReuse) = true) : ¬ request.Reuses sha := by
  intro reuses
  cases request with
  | finalize position =>
    cases position with
    | create files creating =>
      cases creating with
      | existing => cases fresh
      | _ => exact reuses
    | _ => exact reuses
  | _ => exact reuses

private theorem chargedBelow_sound {n : Nat} (below : Server.Below n state)
    (checked : chargedBelow n state next = true) : Charged state next := by
  obtain ⟨uploads, fresh⟩ := Bool.and_eq_true_iff.mp checked
  refine ⟨fun sha absent present => ?_, fun i session later running _ sha reuses => ?_⟩
  · rcases Bool.or_eq_true_iff.mp uploads with same | calm
    · rw [present_iff, of_decide_eq_true same, ← present_iff] at present
      exact absurd present absent
    · obtain ⟨none, idle⟩ := Bool.and_eq_true_iff.mp calm
      have quiet : ∀ {i session}, state.sessions i = some session → _ := fun running =>
        upload_calm sha (below_all below StorageRequest.isUpload idle running)
      refine ⟨fun i session running => (quiet running).1, fun key _ referenced => ?_,
        fun i session running claims => absurd claims (quiet running).2.1,
        fun i session running owes => absurd owes (quiet running).2.2⟩
      rw [OrgStorage.references, Table.get?, List.isEmpty_iff.mp none] at referenced
      cases referenced
  · have none := below_all below (fun request => !request.isReuse) fresh running
    exact absurd reuses (reuse_none none)

def bareStorage : OrgStorage := { pageStorage with blobs := .empty }

def charged : List (Server.Move Input StorageRequest) :=
  [.arrive 0 (.upload pageSha pageBytes)] ++ pageMoves 0 false 1 ++
    [.arrive 1 pageFinalize] ++ pageMoves 1 false 19

theorem bare_balanced : Balanced bareStorage := rfl

theorem bare_accounted : Accounted bareStorage := by
  intro key recorded sha referenced
  cases referenced

theorem page_charged : ∃ final, pageServer.performAll 2 (chargedBelow 2) charged (Server.idle bareStorage) =
    some final ∧ final.committed.storageBytes = final.committed.ledgerSum ∧ Accounted final.committed := by
  have performed : (pageServer.performAll 2 (chargedBelow 2) charged (Server.idle bareStorage)).isSome =
    true := rfl
  obtain ⟨final, ran⟩ := Option.isSome_iff_exists.mp performed
  have idle : Server.Below 2 (Server.idle bareStorage : State OrgStorage Change StorageRequest) := fun _ _ => rfl
  have run : pageServer.Run Charged (Server.idle bareStorage) final :=
    Relation.ReflTransGen.mono (fun _ _ step => ⟨step.1, chargedBelow_sound step.2.2.1 step.2.1⟩) _ _
      (Server.performAll_run idle ran)
  exact ⟨final, ran, storage_ledger_counts bare_balanced bare_accounted run⟩

end Dropway.Api
