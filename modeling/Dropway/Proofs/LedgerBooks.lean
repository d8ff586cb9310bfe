import Dropway.Proofs.StorageSteps

/-! The books of the storage meter. A transaction adds to the counter what it
has put into the ledger, and takes off what it has dropped, so the counter is the
sum of the ledger whenever one commits. -/

namespace Dropway.Api
open Lib
open Lib.ReadCommitted (Session)

variable {hash : Sha256} {quota : StorageQuota} {org view : OrgStorage} {change : Change}
  {changes : List Change} {session other : Session Change StorageRequest} {request next : StorageRequest}
  {input : Input} {effect : Effect Change LockKey} {sha : Text}

/-- The change leaves the ledger and the counter as they are. -/
def Change.aside : Change → Bool
  | .orgBlob _ | .dropOrgBlob _ | .addStorage _ | .subStorage _ => false
  | _ => true

/-- The bytes that are in the ledger and not yet in the counter. -/
def Metering.uncounted : Metering → Nat
  | .insertOrgBlob _ _ delta _ => delta
  | .getPlanTier _ delta => delta
  | .addOrgStorage delta => delta
  | _ => 0

def StorageRequest.uncounted : StorageRequest → Nat
  | .finalize (.create _ (.accountStorage _ metering)) => metering.uncounted
  | .seed (.meterStorageNoCap _ _ _ _ metering) => metering.uncounted
  | _ => 0

/-- The bytes that are out of the ledger and not yet out of the counter. -/
def StorageRequest.freed : StorageRequest → Nat
  | .collect (.deleteOrgBlobs _ _ freed) => freed
  | _ => 0

def StorageRequest.Collects : StorageRequest → Prop
  | .collect _ => True
  | _ => False

theorem StorageRequest.Collects.uncounted (collects : request.Collects) : request.uncounted = 0 := by
  cases request with
  | collect => rfl
  | _ => cases collects

/-- What a step does to the books. -/
inductive Books (view : OrgStorage) : StorageRequest → Effect Change LockKey → StorageRequest → Prop
  | read {request next : StorageRequest} {keys : List LockKey} (uncounted : next.uncounted = request.uncounted)
      (freed : next.freed = request.freed) : Books view request (.read keys) next
  | other {request next : StorageRequest} {change : Change} (aside : change.aside = true)
      (uncounted : next.uncounted = request.uncounted) (freed : next.freed = request.freed) :
      Books view request (.write change) next
  | insert {request next : StorageRequest} {row : OrgBlob}
      (fresh : view.orgBlobs.get? row.contentHash = none)
      (uncounted : next.uncounted = request.uncounted + row.sizeBytes)
      (freed : next.freed = request.freed) : Books view request (.write (.orgBlob row)) next
  | add {request next : StorageRequest} (uncounted : next.uncounted = 0)
      (freed : next.freed = request.freed) :
      Books view request (.write (.addStorage request.uncounted)) next
  | drop {request next : StorageRequest} {sha : Text} {row : OrgBlob} (collects : request.Collects)
      (found : view.orgBlobs.get? sha = some row) (uncounted : next.uncounted = request.uncounted)
      (freed : next.freed = request.freed + row.sizeBytes) :
      Books view request (.write (.dropOrgBlob sha)) next
  | subtract {request next : StorageRequest} (collects : request.Collects)
      (uncounted : next.uncounted = request.uncounted) (freed : next.freed = 0) :
      Books view request (.write (.subStorage request.freed)) next
  | commit {request next : StorageRequest} (settled : request.uncounted = 0 ∧ request.freed = 0)
      (later : next.uncounted = 0 ∧ next.freed = 0) : Books view request .commit next
  | rollback {request next : StorageRequest} (later : next.uncounted = 0 ∧ next.freed = 0) :
      Books view request .rollback next
  | outside {request next : StorageRequest} {change : Change} (stores : change.Stores)
      (uncounted : next.uncounted = request.uncounted) (freed : next.freed = request.freed) :
      Books view request (.outside change) next

private theorem Metering.next_books {metering later : Metering}
    (ran : metering.next quota org = some (.ok (effect, later)))
    (before : request.uncounted = metering.uncounted) (after : next.uncounted = later.uncounted)
    (freed : request.freed = 0) (stays : next.freed = 0) :
    Books org request effect next := by
  have same : next.freed = request.freed := stays.trans freed.symm
  cases metering with
  | lockOrgStorageQuota capped blobs =>
    cases ran
    refine .other rfl ?_ same
    rw [after, before]
    cases capped <;> rfl
  | getOrgStorage blobs =>
    cases ran
    exact .read (after.trans before.symm) same
  | insertOrgBlob capped current delta rest =>
    cases rest with
    | nil =>
      cases ran
      refine .read ?_ same
      rw [after, before, Metering.sum]
      split
      · rename_i none
        exact none.symm
      · split <;> rfl
    | cons blob rest =>
      simp only [Metering.next] at ran
      split at ran
      · cases ran
        exact .read (after.trans before.symm) same
      · split at ran
        · cases ran
          exact .read (after.trans before.symm) same
        · rename_i fresh
          cases ran
          refine .insert (by simpa using fresh) ?_ same
          rw [after, before]
          rfl
  | getPlanTier current delta =>
    simp only [Metering.next] at ran
    split at ran
    · cases ran
      exact .read (after.trans before.symm) same
    · cases ran
  | addOrgStorage delta =>
    cases ran
    have counted : request.uncounted = delta := before
    rw [← counted]
    exact .add after same
  | metered => cases ran

private theorem Creating.next_books {files : List (Text × ManifestTarget)} {creating later : Creating}
    (ran : creating.next quota input org = some (effect, later)) :
    Books org (.finalize (.create files creating)) effect (.finalize (.create files later)) := by
  cases creating with
  | getSite p =>
    simp only [Creating.next] at ran
    split at ran
    · cases ran
      exact .read rfl rfl
    · cases ran
      exact .rollback ⟨rfl, rfl⟩
  | getSiteVersionByContentHash p =>
    simp only [Creating.next] at ran
    split at ran
    · cases ran
      exact .read rfl rfl
    · cases ran
      refine .read ?_ rfl
      simp only [StorageRequest.uncounted, Metering.start]
      split <;> rfl
  | accountStorage p metering =>
    simp only [Creating.next] at ran
    split at ran
    · rename_i step
      cases ran
      exact Metering.next_books step rfl rfl rfl rfl
    · cases ran
      exact .rollback ⟨rfl, rfl⟩
    · rename_i done
      cases ran
      obtain rfl := Metering.next_none done
      exact .read rfl rfl
  | nextVersionNo p =>
    cases ran
    exact .read rfl rfl
  | createSiteVersion p versionNo =>
    simp only [Creating.next] at ran
    split at ran
    · cases ran
    · split at ran
      · cases ran
        exact .rollback ⟨rfl, rfl⟩
      · cases ran
        exact .other rfl rfl rfl
  | existing p version =>
    cases ran
    exact .commit ⟨rfl, rfl⟩ ⟨rfl, rfl⟩
  | created p version =>
    cases ran
    exact .commit ⟨rfl, rfl⟩ ⟨rfl, rfl⟩
  | returned p version => cases ran
  | failed error => cases ran

private theorem Finalizing.next_books {position later : Finalizing}
    (ran : position.next hash quota input org = some (effect, later)) :
    Books org (.finalize position) effect (.finalize later) := by
  cases position with
  | create files creating =>
    rcases Finalizing.next_create ran with ⟨p, version, rfl, rfl, rfl⟩ | ⟨error, rfl, rfl, rfl⟩ |
      ⟨creating, step, rfl⟩
    · exact .read rfl rfl
    · exact .read rfl rfl
    · exact Creating.next_books step
  | verifyManifest r =>
    simp only [Finalizing.next] at ran
    split at ran
    · cases ran
      exact .read rfl rfl
    · split at ran
      · cases ran
        exact .read rfl rfl
      · split at ran <;> (cases ran; exact .read rfl rfl)
  | verifyFiles r rest verified =>
    cases rest with
    | nil =>
      cases ran
      exact .read rfl rfl
    | cons file rest =>
      simp only [Finalizing.next] at ran
      split at ran
      · cases ran
        exact .read rfl rfl
      · split at ran <;> (cases ran; exact .read rfl rfl)
  | putManifest files version =>
    simp only [Finalizing.next] at ran
    split at ran
    · cases ran
      exact .read rfl rfl
    · cases ran
      exact .outside (.putManifest _) rfl rfl
  | createPreview version =>
    simp only [Finalizing.next] at ran
    split at ran
    · cases ran
      exact .read rfl rfl
    · cases ran
      exact .other rfl rfl rfl
  | previewCommit version =>
    cases ran
    exact .commit ⟨rfl, rfl⟩ ⟨rfl, rfl⟩
  | finalized version => cases ran
  | refused error => cases ran

private theorem Publishing.next_books {position later : Publishing}
    (ran : position.next input org = some (effect, later)) :
    Books org (.publish position) effect (.publish later) := by
  cases position with
  | getSite siteId versionId =>
    simp only [Publishing.next] at ran
    split at ran
    · cases ran
      exact .read rfl rfl
    · cases ran
      exact .rollback ⟨rfl, rfl⟩
  | getSiteVersion siteId versionId =>
    simp only [Publishing.next] at ran
    split at ran
    · cases ran
      exact .rollback ⟨rfl, rfl⟩
    · split at ran
      · cases ran
        exact .read rfl rfl
      · cases ran
        exact .rollback ⟨rfl, rfl⟩
  | getHostRoute siteId versionId =>
    simp only [Publishing.next] at ran
    split at ran
    · cases ran
      exact .rollback ⟨rfl, rfl⟩
    · cases ran
      exact .read rfl rfl
  | setCurrentVersion siteId versionId =>
    cases ran
    exact .other rfl rfl rfl
  | setVersionPreviewExpiry siteId versionId =>
    cases ran
    exact .other rfl rfl rfl
  | publishCommit siteId versionId =>
    cases ran
    exact .commit ⟨rfl, rfl⟩ ⟨rfl, rfl⟩
  | published siteId versionId => cases ran
  | refused error => cases ran

private theorem meter_uncounted (seed : SkillSeed) (skillId : Text) (rest : List SkillSeed)
    (created : List SeededSkill) : (StorageRequest.seed (.meter seed skillId rest created)).uncounted = 0 := by
  simp only [Seeding.meter, StorageRequest.uncounted, Metering.start]
  split <;> rfl

private theorem Seeding.next_books {position later : Seeding}
    (ran : position.next quota input org = some (effect, later)) :
    Books org (.seed position) effect (.seed later) := by
  cases position with
  | skillsSeeded seeds =>
    cases ran
    refine .read ?_ rfl
    split <;> rfl
  | putBlobs seeds rest =>
    cases rest with
    | nil =>
      cases ran
      exact .read rfl rfl
    | cons file rest =>
      simp only [Seeding.next] at ran
      split at ran
      · cases ran
        exact .read rfl rfl
      · cases ran
        exact .outside (.putBlob _) rfl rfl
  | lockOrgSkillsSeed seeds =>
    cases ran
    exact .other rfl rfl rfl
  | getOrgSkillsSeeded seeds =>
    simp only [Seeding.next] at ran
    split at ran
    · cases ran
      exact .rollback ⟨rfl, rfl⟩
    · cases ran
      exact .read rfl rfl
  | createSeedSkill rest created =>
    cases rest with
    | nil =>
      cases ran
      exact .commit ⟨rfl, rfl⟩ ⟨rfl, rfl⟩
    | cons seed rest =>
      simp only [Seeding.next] at ran
      split at ran
      · cases ran
        exact .read rfl rfl
      · split at ran
        · cases ran
        · cases ran
          exact .other rfl (meter_uncounted ..) rfl
  | getSkillBySlug seed rest created =>
    simp only [Seeding.next] at ran
    split at ran
    · cases ran
      exact .rollback ⟨rfl, rfl⟩
    · split at ran
      · cases ran
        exact .read rfl rfl
      · cases ran
        exact .read (meter_uncounted ..) rfl
  | meterStorageNoCap seed skillId rest created metering =>
    simp only [Seeding.next] at ran
    split at ran
    · rename_i step
      cases ran
      exact Metering.next_books step rfl rfl rfl rfl
    · cases ran
      exact .rollback ⟨rfl, rfl⟩
    · rename_i done
      cases ran
      obtain rfl := Metering.next_none done
      exact .read rfl rfl
  | upsertSkillVersion seed skillId rest created =>
    simp only [Seeding.next] at ran
    split at ran
    · cases ran
      exact .other rfl rfl rfl
    · split at ran
      · cases ran
      · split at ran
        · cases ran
          exact .rollback ⟨rfl, rfl⟩
        · cases ran
          exact .other rfl rfl rfl
  | putSkillManifests created rest =>
    cases rest with
    | nil =>
      cases ran
      exact .read rfl rfl
    | cons skill rest =>
      simp only [Seeding.next] at ran
      split at ran
      · cases ran
        exact .read rfl rfl
      · cases ran
        exact .outside (.putManifest _) rfl rfl
  | lockPublish created =>
    cases ran
    exact .other rfl rfl rfl
  | getPublished created =>
    simp only [Seeding.next] at ran
    split at ran
    · cases ran
      exact .rollback ⟨rfl, rfl⟩
    · cases ran
      exact .read rfl rfl
  | setSkillCurrentVersion rest =>
    cases rest with
    | nil =>
      cases ran
      exact .other rfl rfl rfl
    | cons skill rest =>
      cases ran
      exact .other rfl rfl rfl
  | publishCommit =>
    cases ran
    exact .commit ⟨rfl, rfl⟩ ⟨rfl, rfl⟩
  | seeded => cases ran
  | failed => cases ran

private theorem Collecting.next_books {position later : Collecting}
    (ran : position.next input org = some (effect, later)) :
    Books org (.collect position) effect (.collect later) := by
  cases position with
  | listVersions policy =>
    cases ran
    exact .read rfl rfl
  | listSkillVersions policy retained =>
    cases ran
    exact .read rfl rfl
  | readManifests policy now keys referenced =>
    cases keys with
    | nil =>
      simp only [Collecting.next] at ran
      split at ran
      · cases ran
        exact .read rfl rfl
      · cases ran
        refine .read rfl ?_
        split <;> rfl
    | cons key keys =>
      simp only [Collecting.next] at ran
      split at ran <;> (cases ran; exact .read rfl rfl)
  | deleteBlobs deleted rest =>
    cases rest with
    | nil =>
      cases ran
      refine .read rfl ?_
      unfold Collecting.release
      split <;> rfl
    | cons sha rest =>
      simp only [Collecting.next] at ran
      split at ran
      · cases ran
        exact .read rfl rfl
      · cases ran
        exact .outside (.deleteBlob _) rfl rfl
  | deleteOrgBlobs deleted rest freed =>
    cases rest with
    | nil =>
      simp only [Collecting.next] at ran
      split at ran
      · rename_i none
        subst none
        cases ran
        exact .read rfl rfl
      · cases ran
        exact .subtract trivial rfl rfl
    | cons sha rest =>
      simp only [Collecting.next] at ran
      split at ran
      · cases ran
        exact .read rfl rfl
      · rename_i row found
        cases ran
        exact .drop trivial found rfl rfl
  | releaseCommit deleted =>
    cases ran
    exact .commit ⟨rfl, rfl⟩ ⟨rfl, rfl⟩
  | collected => cases ran
  | failed => cases ran

theorem StorageRequest.next_books (ran : request.next hash quota input org = some (effect, next)) :
    Books org request effect next := by
  cases request with
  | finalize position =>
    obtain ⟨later, step, rfl⟩ := next_finalize ran
    exact Finalizing.next_books step
  | publish position =>
    obtain ⟨later, step, rfl⟩ := next_publish ran
    exact Publishing.next_books step
  | seed position =>
    obtain ⟨later, step, rfl⟩ := next_seed ran
    exact Seeding.next_books step
  | collect position =>
    obtain ⟨later, step, rfl⟩ := next_collect ran
    exact Collecting.next_books step
  | upload sha bytes =>
    cases ran
    exact .outside (.putBlob _) rfl rfl
  | uploaded => cases ran

def Balanced (org : OrgStorage) : Prop := org.storageBytes = org.ledgerSum

/-- What a request sees is balanced but for what it has not counted yet. -/
def Booked (hash : Sha256) (quota : StorageQuota) (org : OrgStorage)
    (session : Session Change StorageRequest) : Prop :=
  ((storageServer hash quota).view org session).ledgerSum + session.position.freed =
    ((storageServer hash quota).view org session).storageBytes + session.position.uncounted

private theorem insert_sum {row : OrgBlob} (fresh : org.orgBlobs.get? row.contentHash = none) :
    ((Change.orgBlob row).apply org).ledgerSum = org.ledgerSum + row.sizeBytes :=
  Table.sum_upsert_fresh fresh OrgBlob.sizeBytes

private theorem drop_sum (org : OrgStorage) (sha : Text) :
    ((Change.dropOrgBlob sha).apply org).ledgerSum + org.metered sha = org.ledgerSum :=
  Table.sum_delete org.orgBlobs sha OrgBlob.sizeBytes

theorem Change.aside_ledger (org : OrgStorage) (aside : change.aside = true) :
    (change.apply org).orgBlobs = org.orgBlobs ∧ (change.apply org).storageBytes = org.storageBytes := by
  cases change with
  | orgBlob row => cases aside
  | dropOrgBlob sha => cases aside
  | addStorage delta => cases aside
  | subStorage delta => cases aside
  | _ => exact ⟨rfl, rfl⟩

private theorem aside_sum (aside : change.aside = true) : (change.apply org).ledgerSum = org.ledgerSum := by
  rw [OrgStorage.ledgerSum, (Change.aside_ledger org aside).1, OrgStorage.ledgerSum]

theorem Change.Stores.aside (stores : change.Stores) : change.aside = true := by
  cases stores <;> rfl

/-! Two requests lock the rows that they change, so neither changes what the other
adds to the sum. -/

section Frame

variable {one two : OrgStorage}

private theorem apply_row (unlocked : LockKey.orgBlob sha ∉ change.locks) :
    (change.apply org).orgBlobs.get? sha = org.orgBlobs.get? sha := by
  cases change with
  | orgBlob row =>
    have apart : ¬ row.contentHash = sha := fun same => unlocked (by simp [Change.locks, same])
    simp only [Change.apply, Table.get?_upsert, if_neg apart]
  | dropOrgBlob gone =>
    have apart : sha ≠ gone := fun same => unlocked (by simp [Change.locks, same])
    simp only [Change.apply, Table.get?_delete]
    cases found : org.orgBlobs.get? sha with
    | none => rfl
    | some row => simp [Table.get?_key found, apart]
  | _ => rfl

private theorem applyAll_row (unlocked : ∀ change ∈ changes, LockKey.orgBlob sha ∉ change.locks) :
    ((storageServer hash quota).applyAll changes org).orgBlobs.get? sha = org.orgBlobs.get? sha := by
  induction changes generalizing org with
  | nil => rfl
  | cons change rest ih =>
    rw [Server.applyAll_cons, ih fun later mem => unlocked later (List.mem_cons_of_mem change mem)]
    exact apply_row (unlocked change List.mem_cons_self)

private theorem applyAll_bytes (unlocked : ∀ change ∈ changes, LockKey.usage ∉ change.locks) :
    ((storageServer hash quota).applyAll changes org).storageBytes = org.storageBytes := by
  induction changes generalizing org with
  | nil => rfl
  | cons change rest ih =>
    rw [Server.applyAll_cons, ih fun later mem => unlocked later (List.mem_cons_of_mem change mem)]
    have here := unlocked change List.mem_cons_self
    cases change with
    | addStorage delta => simp [Change.locks] at here
    | subStorage delta => simp [Change.locks] at here
    | _ => rfl

private theorem applyAll_bytes_same (same : two.storageBytes = one.storageBytes) :
    ((storageServer hash quota).applyAll changes two).storageBytes =
      ((storageServer hash quota).applyAll changes one).storageBytes := by
  induction changes generalizing one two with
  | nil => exact same
  | cons change rest ih =>
    apply ih
    cases change with
    | addStorage delta => exact congrArg (· + delta) same
    | subStorage delta => exact congrArg (· - delta) same
    | _ => exact same

/-- The rows that a change locks are all that its effect on the sum depends on. -/
private theorem apply_shift
    (agree : ∀ sha, LockKey.orgBlob sha ∈ change.locks → two.orgBlobs.get? sha = one.orgBlobs.get? sha) :
    (change.apply two).ledgerSum + one.ledgerSum = (change.apply one).ledgerSum + two.ledgerSum := by
  cases change with
  | orgBlob row =>
    have same := agree row.contentHash (by simp [Change.locks])
    cases found : one.orgBlobs.get? row.contentHash with
    | none =>
      rw [insert_sum found, insert_sum (same.trans found)]
      omega
    | some old =>
      have first : ((Change.orgBlob row).apply one).ledgerSum = one.ledgerSum :=
        congrArg (fun rows => (rows.map OrgBlob.sizeBytes).sum) (Table.upsert_present found)
      have second : ((Change.orgBlob row).apply two).ledgerSum = two.ledgerSum :=
        congrArg (fun rows => (rows.map OrgBlob.sizeBytes).sum) (Table.upsert_present (same.trans found))
      omega
  | dropOrgBlob sha =>
    have same : two.metered sha = one.metered sha := by
      rw [OrgStorage.metered, agree sha (by simp [Change.locks]), OrgStorage.metered]
    have first := drop_sum one sha
    have second := drop_sum two sha
    omega
  | _ => exact Nat.add_comm _ _

private theorem apply_agree (agree : two.orgBlobs.get? sha = one.orgBlobs.get? sha) :
    (change.apply two).orgBlobs.get? sha = (change.apply one).orgBlobs.get? sha := by
  cases change with
  | orgBlob row =>
    simp only [Change.apply, Table.get?_upsert, agree]
  | dropOrgBlob gone =>
    simp only [Change.apply, Table.get?_delete, agree]
  | _ => exact agree

private theorem applyAll_shift (hash : Sha256) (quota : StorageQuota)
    (agree : ∀ change ∈ changes, ∀ sha, LockKey.orgBlob sha ∈ change.locks →
      two.orgBlobs.get? sha = one.orgBlobs.get? sha) :
    ((storageServer hash quota).applyAll changes two).ledgerSum + one.ledgerSum =
      ((storageServer hash quota).applyAll changes one).ledgerSum + two.ledgerSum := by
  induction changes generalizing one two with
  | nil => exact Nat.add_comm _ _
  | cons change rest ih =>
    have here : (change.apply two).ledgerSum + one.ledgerSum = (change.apply one).ledgerSum + two.ledgerSum :=
      apply_shift (agree change List.mem_cons_self)
    have still : ∀ other ∈ rest, ∀ sha, LockKey.orgBlob sha ∈ other.locks →
        (change.apply two).orgBlobs.get? sha = (change.apply one).orgBlobs.get? sha :=
      fun other mem sha locked => apply_agree (agree other (List.mem_cons_of_mem change mem) sha locked)
    have later := ih still
    have first : (storageServer hash quota).apply change one = change.apply one := rfl
    have second : (storageServer hash quota).apply change two = change.apply two := rfl
    rw [Server.applyAll_cons, Server.applyAll_cons, first, second]
    omega

/-- A request stays booked while another moves the store on. -/
private theorem Booked.moved (booked : Booked hash quota one session) (before : Balanced one)
    (after : Balanced two)
    (rows : ∀ change ∈ session.pending, ∀ sha, LockKey.orgBlob sha ∈ change.locks →
      two.orgBlobs.get? sha = one.orgBlobs.get? sha)
    (bytes : (∃ change ∈ session.pending, LockKey.usage ∈ change.locks) →
      two.storageBytes = one.storageBytes) : Booked hash quota two session := by
  have sums := applyAll_shift hash quota rows
  have counters : ((storageServer hash quota).applyAll session.pending two).storageBytes + one.storageBytes =
      ((storageServer hash quota).applyAll session.pending one).storageBytes + two.storageBytes := by
    by_cases counts : ∃ change ∈ session.pending, LockKey.usage ∈ change.locks
    · rw [bytes counts, applyAll_bytes_same (bytes counts)]
    · have unlocked : ∀ change ∈ session.pending, LockKey.usage ∉ change.locks :=
        fun change mem locked => counts ⟨change, mem, locked⟩
      rw [applyAll_bytes unlocked, applyAll_bytes unlocked, Nat.add_comm]
  unfold Booked Server.view at booked ⊢
  unfold Balanced at before after
  omega

end Frame

private theorem starts_booked {position : StorageRequest} (balanced : Balanced org)
    (starts : position.Starts) : Booked hash quota org ⟨position, []⟩ := by
  have settled : position.uncounted = 0 ∧ position.freed = 0 := by cases starts <;> exact ⟨rfl, rfl⟩
  unfold Booked
  rw [settled.1, settled.2]
  exact balanced.symm

private theorem store_balanced (balanced : Balanced org) (booked : Booked hash quota org session)
    (books : Books ((storageServer hash quota).view org session) session.position effect next) :
    Balanced ((storageServer hash quota).store org session.pending effect) := by
  cases books with
  | commit settled later =>
    unfold Booked at booked
    rw [settled.1, settled.2] at booked
    exact booked.symm
  | outside stores uncounted freed =>
    have kept := (Change.aside_ledger org stores.aside).2
    exact kept.trans (balanced.trans (aside_sum stores.aside).symm)
  | _ => exact balanced

private theorem view_write (hash : Sha256) (quota : StorageQuota) (pending : List Change)
    (position : StorageRequest) : (storageServer hash quota).view org ⟨position, pending ++ [change]⟩ =
      change.apply ((storageServer hash quota).applyAll pending org) :=
  Server.applyAll_append _ _ _ _

private theorem metered_row {row : OrgBlob} (found : org.orgBlobs.get? sha = some row) :
    org.metered sha = row.sizeBytes := by
  rw [OrgStorage.metered, found]
  rfl

private theorem request_booked (balanced : Balanced org) (booked : Booked hash quota org session)
    (books : Books ((storageServer hash quota).view org session) session.position effect next) :
    Booked hash quota ((storageServer hash quota).store org session.pending effect)
      ⟨next, Server.pending session.pending effect⟩ := by
  obtain ⟨request, pending⟩ := session
  have seen : (storageServer hash quota).view org ⟨request, pending⟩ =
    (storageServer hash quota).applyAll pending org := rfl
  unfold Booked at booked
  rw [seen] at booked books
  unfold Booked
  cases books with
  | read uncounted freed =>
    rw [uncounted, freed]
    exact booked
  | other aside uncounted freed =>
    have kept := Change.aside_ledger ((storageServer hash quota).applyAll pending org) aside
    simp only [Server.store, Server.pending, view_write, aside_sum aside, kept.2, uncounted, freed]
    exact booked
  | insert fresh uncounted freed =>
    simp only [Server.store, Server.pending, view_write, insert_sum fresh, uncounted, freed]
    simp only [Change.apply] at booked ⊢
    omega
  | add uncounted freed =>
    simp only [Server.store, Server.pending, view_write, uncounted, freed]
    exact booked
  | drop collects found uncounted freed =>
    rename_i dropped row
    have sum := drop_sum ((storageServer hash quota).applyAll pending org) dropped
    rw [metered_row found] at sum
    simp only [Server.store, Server.pending, view_write, uncounted, freed]
    simp only [Change.apply] at booked sum ⊢
    omega
  | subtract collects uncounted freed =>
    have none := collects.uncounted
    simp only [Server.store, Server.pending, view_write, uncounted, freed, none] at booked ⊢
    simp only [Change.apply, OrgStorage.ledgerSum] at booked ⊢
    omega
  | commit settled later =>
    rw [later.1, later.2]
    rw [settled.1, settled.2] at booked
    exact booked
  | rollback later =>
    rw [later.1, later.2]
    exact balanced.symm
  | outside stores uncounted freed =>
    rename_i change
    have kept := Change.aside_ledger org stores.aside
    have moved : Booked hash quota (change.apply org) ⟨request, pending⟩ :=
      Booked.moved booked balanced (kept.2.trans (balanced.trans (aside_sum stores.aside).symm))
        (fun _ _ _ _ => by rw [kept.1]) fun _ => kept.2
    unfold Booked at moved
    rw [uncounted, freed]
    exact moved

private theorem others_booked (balanced : Balanced org) (booked : Booked hash quota org session)
    (bookedOther : Booked hash quota org other)
    (exclusive : (storageServer hash quota).Exclusive session other)
    (books : Books ((storageServer hash quota).view org other) other.position effect next) :
    Booked hash quota ((storageServer hash quota).store org other.pending effect) session := by
  have after := store_balanced balanced bookedOther books
  have apart : ∀ change ∈ session.pending, ∀ key ∈ change.locks,
      ∀ made ∈ other.pending, key ∉ made.locks := by
    intro change mem key locked made madeMem held
    exact exclusive key (List.mem_flatMap.mpr ⟨change, mem, locked⟩) (List.mem_flatMap.mpr ⟨made, madeMem, held⟩)
  cases books with
  | commit settled later =>
    apply Booked.moved booked balanced after
    · intro change mem sha locked
      exact applyAll_row (apart change mem _ locked)
    · intro ⟨change, mem, locked⟩
      exact applyAll_bytes (apart change mem _ locked)
  | outside stores uncounted freed =>
    have kept := Change.aside_ledger org stores.aside
    apply Booked.moved booked balanced after
    · intro change mem sha locked
      exact congrArg (fun table => Table.get? table sha) kept.1
    · intro _
      exact kept.2
  | _ => exact booked

/-- The counter is the sum of the ledger, whatever runs. -/
theorem storage_balanced : (storageServer hash quota).Discipline Balanced (Booked hash quota)
    (fun _ _ => True) (fun _ _ _ => True) where
  arrives balanced starts := starts_booked balanced starts
  store balanced booked _ ran := store_balanced balanced booked (StorageRequest.next_books ran)
  request balanced booked _ ran := request_booked balanced booked (StorageRequest.next_books ran)
  others balanced booked bookedOther _ _ _ exclusive ran :=
    others_booked balanced booked bookedOther exclusive (StorageRequest.next_books ran)

end Dropway.Api
