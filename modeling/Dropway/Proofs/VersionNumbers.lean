import Dropway.Proofs.Metering

/-! Deploys of one site at the same time. A call looks for a version of its
content before it takes the lock that orders the deploys, so two calls of one
content may both miss and the second then fails. Where that does not happen,
every call is served and the versions are numbered one after the other. -/

namespace Dropway.Api
open Lib
open Lib.ReadCommitted (Session State)

variable {quota : StorageQuota} {siteId : Text} {org start : OrgStorage}
  {session other : Session Change Creating} {position : Creating} {input : Input}
  {effect : Effect Change LockKey} {state final : State OrgStorage Change Creating}

/-- The content that a call has looked for in vain. -/
def Creating.missed : Creating → Option Text
  | .accountStorage p _ => some p.contentHash
  | .nextVersionNo p => some p.contentHash
  | .createSiteVersion p _ => some p.contentHash
  | .created p _ => some p.contentHash
  | _ => none

def Creating.Answered : Creating → Prop
  | .returned _ _ => True
  | .failed _ => True
  | _ => False

/-- How many statements a call still takes at most. -/
def Creating.steps : Creating → Nat
  | .getSite p => p.blobs.length + 11
  | .getSiteVersionByContentHash p => p.blobs.length + 10
  | .accountStorage _ metering => metering.steps + 4
  | .nextVersionNo _ => 3
  | .createSiteVersion _ _ => 2
  | .existing _ _ => 1
  | .created _ _ => 1
  | .returned _ _ => 0
  | .failed _ => 0

/-- No two calls have both missed one content. -/
def MissApart (session other : Session Change Creating) : Prop :=
  ∀ contentHash, session.position.missed = some contentHash → other.position.missed ≠ some contentHash

instance : DecidableRel MissApart := fun session other => by
  unfold MissApart
  cases session.position.missed with
  | none => exact .isTrue fun _ same => by cases same
  | some contentHash =>
    exact decidable_of_iff (other.position.missed ≠ some contentHash)
      ⟨fun apart _ same => by cases same; exact apart, fun apart => apart contentHash rfl⟩

/-- The unique keys of the version table. -/
def OrgStorage.Keyed (org : OrgStorage) : Prop :=
  ∀ row ∈ org.siteVersions.rows, ∀ other ∈ org.siteVersions.rows, row.siteId = other.siteId →
    row.contentHash = other.contentHash ∨ row.versionNo = other.versionNo → row = other

/-- The site's versions since `start`, numbered one after the other. -/
structure Numbered (siteId : Text) (start org : OrgStorage) : Prop where
  site : (org.sites.get? siteId).isSome
  keyed : org.Keyed
  rows : ∃ new : List VersionRow, org.siteVersions.rows = start.siteVersions.rows ++ new ∧
    new.map VersionRow.versionNo = List.range' (start.nextVersionNo siteId) new.length ∧
    (∀ row ∈ new, row.siteId = siteId) ∧
    org.nextVersionNo siteId = start.nextVersionNo siteId + new.length

/-- What a call relies on. -/
def Creating.Relies (siteId : Text) (org : OrgStorage) (session : Session Change Creating) : Prop :=
  match session.position with
  | .getSite p => p.siteId = siteId ∧ p.blobs ≠ [] ∧ session.pending = []
  | .getSiteVersionByContentHash p => p.siteId = siteId ∧ p.blobs ≠ [] ∧ session.pending = []
  | .accountStorage p metering =>
    p.siteId = siteId ∧ org.getSiteVersionByContentHash siteId p.contentHash = none ∧
      (∀ change ∈ session.pending, change.Meters) ∧
      (metering.Starts → session.pending = []) ∧ (¬ metering.Starts → Change.storageQuota ∈ session.pending)
  | .nextVersionNo p =>
    p.siteId = siteId ∧ org.getSiteVersionByContentHash siteId p.contentHash = none ∧
      (∀ change ∈ session.pending, change.Meters) ∧ Change.storageQuota ∈ session.pending
  | .createSiteVersion p versionNo =>
    p.siteId = siteId ∧ org.getSiteVersionByContentHash siteId p.contentHash = none ∧
      (∀ change ∈ session.pending, change.Meters) ∧ Change.storageQuota ∈ session.pending ∧
      versionNo = org.nextVersionNo siteId
  | .existing p version =>
    session.pending = [] ∧ version ∈ org.siteVersions.rows ∧ version.siteId = siteId ∧
      version.contentHash = p.contentHash
  | .created p version =>
    ∃ metered, session.pending = metered ++ [.siteVersion version] ∧
      (∀ change ∈ metered, change.Meters) ∧ Change.storageQuota ∈ metered ∧
      org.getSiteVersionByContentHash siteId p.contentHash = none ∧
      org.siteVersions.get? version.id = none ∧ version.siteId = siteId ∧
      version.contentHash = p.contentHash ∧ version.versionNo = org.nextVersionNo siteId
  | .returned p version =>
    session.pending = [] ∧ version ∈ org.siteVersions.rows ∧ version.siteId = siteId ∧
      version.contentHash = p.contentHash
  | .failed _ => False

private theorem applyAll_meters (quota : StorageQuota) (siteId : Text) (org : OrgStorage)
    {changes : List Change} (meters : ∀ change ∈ changes, change.Meters) :
    ((deploys quota siteId).applyAll changes org).siteVersions = org.siteVersions ∧
      ((deploys quota siteId).applyAll changes org).sites = org.sites := by
  induction changes generalizing org with
  | nil => exact ⟨rfl, rfl⟩
  | cons change rest ih =>
    have here := meters change List.mem_cons_self
    obtain ⟨versions, sites⟩ := ih (change.apply org)
      fun other mem => meters other (List.mem_cons_of_mem change mem)
    exact ⟨versions.trans here.siteVersions, sites.trans here.sites⟩

private theorem getSiteVersionByContentHash_none {contentHash : Text} :
    org.getSiteVersionByContentHash siteId contentHash = none ↔
      ∀ row ∈ org.siteVersions.rows, row.siteId = siteId → row.contentHash ≠ contentHash := by
  simp [OrgStorage.getSiteVersionByContentHash, List.find?_eq_none]

private theorem nextVersionNo_above {row : VersionRow} (mem : row ∈ org.siteVersions.rows) :
    row.versionNo < org.nextVersionNo row.siteId := by
  have listed : row.versionNo ∈ org.versionNos row.siteId :=
    List.mem_map.mpr ⟨row, Table.mem_filter.mpr ⟨mem, by simp⟩, rfl⟩
  have bound : ∀ nos : List Nat, row.versionNo ∈ nos → row.versionNo ≤ nos.foldr max 0 := by
    intro nos mem
    induction nos with
    | nil => cases mem
    | cons no rest ih =>
      rcases List.mem_cons.mp mem with rfl | mem
      · exact Nat.le_max_left _ _
      · exact (ih mem).trans (Nat.le_max_right _ _)
  exact Nat.lt_succ_of_le (bound _ listed)

private theorem siteVersion_rows {row : VersionRow} (fresh : org.siteVersions.get? row.id = none) :
    ((Change.siteVersion row).apply org).siteVersions.rows = org.siteVersions.rows ++ [row] := by
  simp only [Change.apply, Table.upsert]
  split
  · rfl
  · rename_i found
    rw [fresh] at found
    cases found

private theorem foldr_max (nos : List Nat) (no : Nat) :
    nos.foldr max no = max (nos.foldr max 0) no := by
  induction nos with
  | nil => simp
  | cons first rest ih =>
    rw [List.foldr_cons, List.foldr_cons, ih, Nat.max_assoc]

private theorem siteVersion_nextVersionNo {row : VersionRow}
    (fresh : org.siteVersions.get? row.id = none) (site : row.siteId = siteId)
    (numbered : row.versionNo = org.nextVersionNo siteId) :
    ((Change.siteVersion row).apply org).nextVersionNo siteId = org.nextVersionNo siteId + 1 := by
  have nos : ((Change.siteVersion row).apply org).versionNos siteId =
      org.versionNos siteId ++ [row.versionNo] := by
    simp [OrgStorage.versionNos, Table.filter, siteVersion_rows fresh, List.filter_append, site]
  simp only [OrgStorage.nextVersionNo] at numbered ⊢
  rw [nos, List.foldr_append, List.foldr_cons, List.foldr_nil, foldr_max, numbered]
  omega

theorem Numbered.create (numbered : Numbered siteId start org) {row : VersionRow}
    (fresh : org.siteVersions.get? row.id = none) (site : row.siteId = siteId)
    (missed : org.getSiteVersionByContentHash siteId row.contentHash = none)
    (next : row.versionNo = org.nextVersionNo siteId) :
    Numbered siteId start ((Change.siteVersion row).apply org) := by
  refine ⟨numbered.site, ?_, ?_⟩
  · -- A row of the site has another content and a smaller number.
    have apart : ∀ old ∈ org.siteVersions.rows, old.siteId = row.siteId →
        ¬ (old.contentHash = row.contentHash ∨ old.versionNo = row.versionNo) := by
      intro old mem same conflict
      rw [site] at same
      rcases conflict with hash | no
      · exact getSiteVersionByContentHash_none.mp missed old mem same hash
      · have below := nextVersionNo_above mem
        rw [same] at below
        omega
    intro one oneMem two twoMem same conflict
    rw [siteVersion_rows fresh, List.mem_append, List.mem_singleton] at oneMem twoMem
    rcases oneMem with oneMem | rfl <;> rcases twoMem with twoMem | rfl
    · exact numbered.keyed one oneMem two twoMem same conflict
    · exact absurd conflict (apart one oneMem same)
    · exact absurd (conflict.imp Eq.symm Eq.symm) (apart two twoMem same.symm)
    · rfl
  · obtain ⟨new, rows, nos, sites, count⟩ := numbered.rows
    refine ⟨new ++ [row], ?_, ?_, ?_, ?_⟩
    · rw [siteVersion_rows fresh, rows, List.append_assoc]
    · rw [List.map_append, nos, List.length_append, List.map_singleton, next, count,
        List.length_singleton, List.range'_concat, Nat.one_mul]
    · intro other mem
      rcases List.mem_append.mp mem with mem | mem
      · exact sites other mem
      · rw [List.mem_singleton.mp mem]
        exact site
    · rw [siteVersion_nextVersionNo fresh site next, count, List.length_append,
        List.length_singleton, Nat.add_assoc]

section Calls

variable (unlimited : ∀ tier current delta, quota tier current delta = true)

private theorem storageQuota_locked (holds : Change.storageQuota ∈ session.pending) :
    LockKey.storageQuota ∈ (deploys quota siteId).locked session :=
  List.mem_flatMap.mpr ⟨_, holds, List.mem_singleton.mpr rfl⟩

private theorem view_meters (meters : ∀ change ∈ session.pending, change.Meters) :
    ((deploys quota siteId).view org session).siteVersions = org.siteVersions ∧
      ((deploys quota siteId).view org session).sites = org.sites :=
  applyAll_meters quota siteId org meters

/-- Only a call that has created its version changes what is committed. -/
private theorem changes (relies : Creating.Relies siteId org session)
    (ran : session.position.next quota input ((deploys quota siteId).view org session) =
      some (effect, position)) :
    (deploys quota siteId).store org session.pending effect = org ∨
      ∃ p version, session.position = .created p version ∧ effect = .commit := by
  obtain ⟨at_, updates⟩ := session
  cases at_ with
  | existing p version =>
    cases ran
    obtain rfl : updates = [] := relies.1
    exact .inl rfl
  | created p version =>
    cases ran
    exact .inr ⟨p, version, rfl, rfl⟩
  | getSite p =>
    simp only [Creating.next] at ran
    split at ran <;> (cases ran; exact .inl rfl)
  | getSiteVersionByContentHash p =>
    simp only [Creating.next] at ran
    split at ran <;> (cases ran; exact .inl rfl)
  | accountStorage p metering =>
    simp only [Creating.next] at ran
    split at ran
    · rename_i step
      cases ran
      rcases Metering.next_effect step with ⟨keys, rfl⟩ | ⟨change, rfl, -⟩ <;> exact .inl rfl
    · cases ran
      exact .inl rfl
    · cases ran
      exact .inl rfl
  | nextVersionNo p =>
    cases ran
    exact .inl rfl
  | createSiteVersion p versionNo =>
    simp only [Creating.next] at ran
    split at ran
    · cases ran
    · split at ran <;> (cases ran; exact .inl rfl)
  | returned p version => cases ran
  | failed error => cases ran

private theorem getSiteVersionByContentHash_congr {other : OrgStorage}
    (same : other.siteVersions = org.siteVersions) (contentHash : Text) :
    other.getSiteVersionByContentHash siteId contentHash =
      org.getSiteVersionByContentHash siteId contentHash := by
  simp only [OrgStorage.getSiteVersionByContentHash, same]

private theorem nextVersionNo_congr {other : OrgStorage} (same : other.siteVersions = org.siteVersions) :
    other.nextVersionNo siteId = org.nextVersionNo siteId := by
  simp only [OrgStorage.nextVersionNo, OrgStorage.versionNos, same]

private theorem Numbered.congr {other : OrgStorage} (numbered : Numbered siteId start org)
    (versions : other.siteVersions = org.siteVersions) (sites : other.sites = org.sites) :
    Numbered siteId start other := by
  obtain ⟨site, keyed, rows⟩ := numbered
  refine ⟨by rwa [sites], ?_, ?_⟩
  · unfold OrgStorage.Keyed
    rwa [versions]
  · rwa [versions, nextVersionNo_congr versions]

/-- What is committed with a new version. -/
private theorem created_store (quota : StorageQuota) {p : CreateSiteVersionParams} {version : VersionRow}
    (relies : Creating.Relies siteId org session) (here : session.position = .created p version) :
    (∀ start, Numbered siteId start org →
      Numbered siteId start ((deploys quota siteId).store org session.pending .commit)) ∧
    ((deploys quota siteId).store org session.pending .commit).siteVersions.rows =
      org.siteVersions.rows ++ [version] := by
  simp only [Creating.Relies, here] at relies
  obtain ⟨metered, pending, meters, -, missed, fresh, site, hash, next⟩ := relies
  obtain ⟨versions, sites⟩ := applyAll_meters quota siteId org meters
  have store : (deploys quota siteId).store org session.pending .commit =
      (Change.siteVersion version).apply ((deploys quota siteId).applyAll metered org) := by
    rw [pending]
    exact Server.applyAll_append _ metered _ org
  rw [← versions] at fresh
  rw [store]
  refine ⟨fun start numbered => ?_, ?_⟩
  · apply (numbered.congr versions sites).create fresh site
    · rw [getSiteVersionByContentHash_congr versions, hash]
      exact missed
    · rw [nextVersionNo_congr versions]
      exact next
  · rw [siteVersion_rows fresh, versions]

private theorem no_conflict {other : OrgStorage} {p : CreateSiteVersionParams} {id : Text}
    (same : other.siteVersions = org.siteVersions) (site : p.siteId = siteId)
    (missed : org.getSiteVersionByContentHash siteId p.contentHash = none) :
    other.versionConflict (p.row id (org.nextVersionNo siteId)) = false := by
  rw [OrgStorage.versionConflict, same, List.any_eq_false]
  intro row mem
  simp only [CreateSiteVersionParams.row, decide_eq_true_eq, not_and, not_or, site]
  intro here
  refine ⟨getSiteVersionByContentHash_none.mp missed row mem here, fun taken => ?_⟩
  have below := nextVersionNo_above mem
  rw [here] at below
  omega

include unlimited in
private theorem relies_request (numbered : Numbered siteId start org)
    (relies : Creating.Relies siteId org session)
    (ran : session.position.next quota input ((deploys quota siteId).view org session) =
      some (effect, position)) :
    Creating.Relies siteId ((deploys quota siteId).store org session.pending effect)
      ⟨position, Server.pending session.pending effect⟩ := by
  obtain ⟨at_, updates⟩ := session
  cases at_ with
  | getSite p =>
    obtain ⟨site, nonempty, rfl⟩ := relies
    have present : (org.sites.get? p.siteId).isSome := by
      rw [site]
      exact numbered.site
    have ran : (if (org.sites.get? p.siteId).isSome then some (.read [], .getSiteVersionByContentHash p)
        else some (.rollback, .failed .notFound)) = some (effect, position) := ran
    rw [if_pos present] at ran
    cases ran
    exact ⟨site, nonempty, rfl⟩
  | getSiteVersionByContentHash p =>
    obtain ⟨site, nonempty, rfl⟩ := relies
    simp only [Creating.next, Server.view, Server.applyAll_nil] at ran
    split at ran
    · rename_i version found
      cases ran
      have same := List.find?_some found
      simp only [decide_eq_true_eq] at same
      exact ⟨rfl, List.mem_of_find?_eq_some found, same.1.trans site, same.2⟩
    · rename_i missed
      cases ran
      rw [site] at missed
      exact ⟨site, missed, fun change mem => (List.not_mem_nil mem).elim, fun _ => rfl,
        fun locked => absurd (Metering.start_starts nonempty) locked⟩
  | accountStorage p metering =>
    obtain ⟨site, missed, meters, starts, locked⟩ := relies
    simp only [Creating.next] at ran
    split at ran
    · rename_i effect' next step
      cases ran
      rcases Metering.next_effect step with ⟨keys, rfl⟩ | ⟨change, rfl, made⟩
      · have later : ¬ metering.Starts := fun begins => by
          cases Metering.next_starts begins step
        exact ⟨site, missed, meters, fun begins => absurd begins (Metering.next_locked step),
          fun _ => locked later⟩
      · refine ⟨site, missed, ?_, fun begins => absurd begins (Metering.next_locked step), fun _ => ?_⟩
        · intro other mem
          rcases List.mem_append.mp mem with mem | mem
          · exact meters other mem
          · rw [List.mem_singleton.mp mem]
            exact made
        · by_cases begins : metering.Starts
          · cases Metering.next_starts begins step
            exact List.mem_append_right _ (List.mem_singleton.mpr rfl)
          · exact List.mem_append_left _ (locked begins)
    · rename_i error refused
      rcases Metering.next_ok metering _ unlimited with ⟨done, -⟩ | ⟨_, _, step⟩
      · rw [done] at refused
        cases refused
      · rw [step] at refused
        cases refused
    · rename_i done
      cases ran
      refine ⟨site, missed, meters, locked fun begins => ?_⟩
      rcases Metering.next_ok metering _ unlimited with ⟨-, rfl⟩ | ⟨_, _, step⟩
      · exact begins
      · rw [step] at done
        cases done
  | nextVersionNo p =>
    obtain ⟨site, missed, meters, locked⟩ := relies
    cases ran
    refine ⟨site, missed, meters, locked, ?_⟩
    rw [site]
    exact nextVersionNo_congr (view_meters meters).1
  | createSiteVersion p versionNo =>
    obtain ⟨site, missed, meters, locked, rfl⟩ := relies
    have versions : ((deploys quota siteId).applyAll updates org).siteVersions = org.siteVersions :=
      (applyAll_meters quota siteId org meters).1
    simp only [Creating.next, Server.view, no_conflict versions site missed,
      Bool.false_eq_true, if_false] at ran
    by_cases taken : ((deploys quota siteId).applyAll updates org).ids.contains input.id
    · rw [if_pos taken] at ran
      cases ran
    · rw [if_neg taken] at ran
      cases ran
      have fresh : org.siteVersions.get? input.id = none := by
        rw [← versions]
        exact OrgStorage.siteVersion_undrawn (by simpa using taken)
      exact ⟨updates, rfl, meters, locked, missed, fresh, site, rfl, rfl⟩
  | existing p version =>
    obtain ⟨rfl, mem, site, hash⟩ := relies
    cases ran
    exact ⟨rfl, mem, site, hash⟩
  | created p version =>
    have rows := (created_store quota relies rfl).2
    obtain ⟨metered, pending, meters, -, missed, fresh, site, hash, next⟩ := relies
    cases ran
    refine ⟨rfl, ?_, site, hash⟩
    rw [rows]
    exact List.mem_append_right _ (List.mem_singleton.mpr rfl)
  | returned p version => cases ran
  | failed error => cases ran

private theorem relies_others (relies : Creating.Relies siteId org session)
    (otherRelies : Creating.Relies siteId org other) (apart : MissApart session other)
    (exclusive : (deploys quota siteId).Exclusive session other)
    (ran : other.position.next quota input ((deploys quota siteId).view org other) =
      some (effect, position)) :
    Creating.Relies siteId ((deploys quota siteId).store org other.pending effect) session := by
  rcases changes otherRelies ran with same | ⟨q, version, here, rfl⟩
  · rwa [same]
  obtain ⟨-, rows⟩ := created_store quota otherRelies here
  generalize (deploys quota siteId).store org other.pending .commit = after at rows
  -- The version that is committed is of another content, and under the lock.
  have others : Change.storageQuota ∉ session.pending := by
    intro holds
    simp only [Creating.Relies, here] at otherRelies
    obtain ⟨metered, pending, -, locked, -⟩ := otherRelies
    apply exclusive _ (storageQuota_locked holds)
    exact storageQuota_locked (pending ▸ List.mem_append_left _ locked)
  have hash : version.contentHash = q.contentHash := by
    simp only [Creating.Relies, here] at otherRelies
    obtain ⟨metered, -, -, -, -, -, -, hash, -⟩ := otherRelies
    exact hash
  have missed : ∀ contentHash, session.position.missed = some contentHash →
      org.getSiteVersionByContentHash siteId contentHash = none →
        after.getSiteVersionByContentHash siteId contentHash = none := by
    intro contentHash missing none
    rw [getSiteVersionByContentHash_none] at none ⊢
    intro row mem site same
    rw [rows, List.mem_append, List.mem_singleton] at mem
    rcases mem with mem | rfl
    · exact none row mem site same
    · apply apart contentHash missing
      rw [here, ← same, hash]
      rfl
  have kept : ∀ row ∈ org.siteVersions.rows, row ∈ after.siteVersions.rows := fun row mem => by
    rw [rows]
    exact List.mem_append_left _ mem
  obtain ⟨at_, updates⟩ := session
  cases at_ with
  | getSite p => exact relies
  | getSiteVersionByContentHash p => exact relies
  | accountStorage p metering =>
    obtain ⟨site, none, rest⟩ := relies
    exact ⟨site, missed _ rfl none, rest⟩
  | nextVersionNo p =>
    obtain ⟨site, none, meters, locked⟩ := relies
    exact absurd locked others
  | createSiteVersion p versionNo =>
    obtain ⟨site, none, meters, locked, -⟩ := relies
    exact absurd locked others
  | existing p found =>
    obtain ⟨pending, mem, rest⟩ := relies
    exact ⟨pending, kept found mem, rest⟩
  | created p made =>
    obtain ⟨metered, pending, -, locked, -⟩ := relies
    refine absurd ?_ others
    rw [show updates = metered ++ [.siteVersion made] from pending]
    exact List.mem_append_left _ locked
  | returned p found =>
    obtain ⟨pending, mem, rest⟩ := relies
    exact ⟨pending, kept found mem, rest⟩
  | failed error => exact relies

include unlimited in
theorem deploys_discipline : (deploys quota siteId).Discipline (Numbered siteId start)
    (Creating.Relies siteId) (fun _ _ => True) (fun _ => MissApart) where
  arrives {org position} numbered admitted := by
    cases position with
    | getSite p => exact ⟨admitted.1, admitted.2, rfl⟩
    | _ => cases admitted
  store {org session input effect position} numbered relies _ ran := by
    rcases changes relies ran with same | ⟨p, version, here, rfl⟩
    · rwa [same]
    · exact (created_store quota relies here).1 start numbered
  request numbered relies _ ran := relies_request unlimited numbered relies ran
  others _ relies otherRelies _ apart _ exclusive ran := relies_others relies otherRelies apart exclusive ran

private theorem next_steps {next : Creating} (ran : position.next quota input org = some (effect, next)) :
    next.steps < position.steps := by
  cases position with
  | getSite p =>
    simp only [Creating.next] at ran
    split at ran <;> (cases ran; simp [Creating.steps])
  | getSiteVersionByContentHash p =>
    simp only [Creating.next] at ran
    split at ran
    · cases ran
      simp [Creating.steps]
    · cases ran
      have bound := Metering.start_steps true p.blobs
      simp only [Creating.steps]
      omega
  | accountStorage p metering =>
    simp only [Creating.next] at ran
    split at ran
    · rename_i step
      cases ran
      exact Nat.add_lt_add_right (Metering.next_steps step) 4
    · cases ran
      simp [Creating.steps]
    · cases ran
      simp only [Creating.steps]
      omega
  | nextVersionNo p =>
    cases ran
    simp [Creating.steps]
  | createSiteVersion p versionNo =>
    simp only [Creating.next] at ran
    split at ran
    · cases ran
    · split at ran <;> (cases ran; simp [Creating.steps])
  | existing p version =>
    cases ran
    simp [Creating.steps]
  | created p version =>
    cases ran
    simp [Creating.steps]
  | returned p version => cases ran
  | failed error => cases ran

private theorem next_some (quota : StorageQuota) (org : OrgStorage) (answered : ¬ position.Answered) :
    ∃ input effect next, position.next quota input org = some (effect, next) := by
  obtain ⟨id, undrawn⟩ := Infinite.exists_notMem_finset org.ids.toFinset
  have free : org.ids.contains id = false := by simpa using undrawn
  refine ⟨⟨id, 0, false⟩, ?_⟩
  cases position with
  | getSite p =>
    simp only [Creating.next]
    split <;> exact ⟨_, _, rfl⟩
  | getSiteVersionByContentHash p =>
    simp only [Creating.next]
    split <;> exact ⟨_, _, rfl⟩
  | accountStorage p metering =>
    simp only [Creating.next]
    split <;> exact ⟨_, _, rfl⟩
  | nextVersionNo p => exact ⟨_, _, rfl⟩
  | createSiteVersion p versionNo =>
    simp only [Creating.next, free, Bool.false_eq_true, if_false]
    split <;> exact ⟨_, _, rfl⟩
  | existing p version => exact ⟨_, _, rfl⟩
  | created p version => exact ⟨_, _, rfl⟩
  | returned p version => exact absurd trivial answered
  | failed error => exact absurd trivial answered

/-- Whoever has locked something has the lock that orders the deploys, and is at work. -/
private theorem locked_quota (relies : Creating.Relies siteId org session)
    (holds : (deploys quota siteId).locked session ≠ []) :
    LockKey.storageQuota ∈ (deploys quota siteId).locked session ∧ ¬ session.position.Answered := by
  obtain ⟨at_, updates⟩ := session
  have idle : updates ≠ [] := fun none => holds (by rw [none]; rfl)
  cases at_ with
  | getSite p => exact absurd relies.2.2 idle
  | getSiteVersionByContentHash p => exact absurd relies.2.2 idle
  | accountStorage p metering =>
    obtain ⟨-, -, -, starts, locked⟩ := relies
    exact ⟨storageQuota_locked (locked fun begins => idle (starts begins)), id⟩
  | nextVersionNo p => exact ⟨storageQuota_locked relies.2.2.2, id⟩
  | createSiteVersion p versionNo => exact ⟨storageQuota_locked relies.2.2.2.1, id⟩
  | existing p version => exact absurd relies.1 idle
  | created p version =>
    obtain ⟨metered, pending, -, locked, -⟩ := relies
    exact ⟨storageQuota_locked (pending ▸ List.mem_append_left _ locked), id⟩
  | returned p version => exact absurd relies.1 idle
  | failed error => exact relies.elim

private theorem moves (sound : (deploys quota siteId).Sound (Numbered siteId start)
      (Creating.Relies siteId) state) {i : Nat} (running : state.sessions i = some session)
    (unanswered : ¬ session.position.Answered) :
    ∃ j, (deploys quota siteId).CanAct state j := by
  by_cases locks : ∃ j other, state.sessions j = some other ∧ (deploys quota siteId).locked other ≠ []
  · obtain ⟨j, other, otherRunning, holds⟩ := locks
    obtain ⟨quotaLocked, working⟩ := locked_quota (sound.sessions j other otherRunning) holds
    obtain ⟨input, effect, position, ran⟩ := next_some quota
      ((deploys quota siteId).view state.committed other) working
    refine ⟨j, other, input, effect, position, otherRunning, ran, fun k third apart thirdRunning key _ held => ?_⟩
    have thirdQuota := (locked_quota (sound.sessions k third thirdRunning)
      (List.ne_nil_of_mem held)).1
    exact sound.exclusive j k other third apart.symm otherRunning thirdRunning _ quotaLocked thirdQuota
  · obtain ⟨input, effect, position, ran⟩ := next_some quota
      ((deploys quota siteId).view state.committed session) unanswered
    refine ⟨i, session, input, effect, position, running, ran, fun k third _ thirdRunning key _ held => ?_⟩
    exact locks ⟨k, third, thirdRunning, List.ne_nil_of_mem held⟩

end Calls

/-- What the deploys of a site, begun on the rows of `start`, come to. -/
structure Deployed (quota : StorageQuota) (siteId : Text) (start : OrgStorage)
    (state : State OrgStorage Change Creating) : Prop where
  succeeds : ∀ i session error, state.sessions i = some session → session.position ≠ .failed error
  /-- As long as a call is unanswered, one of them can go on, and no call goes on for ever. -/
  moves : ∀ i session, state.sessions i = some session → ¬ session.position.Answered →
    ∃ j, (deploys quota siteId).CanAct state j
  ends : ∀ i session input effect next, state.sessions i = some session →
    session.position.next quota input ((deploys quota siteId).view state.committed session) =
      some (effect, next) → next.steps < session.position.steps
  stored : ∀ i session p version, state.sessions i = some session →
    session.position = .returned p version →
      version ∈ state.committed.siteVersions.rows ∧ version.contentHash = p.contentHash
  ids : ∀ i j session other p q version made, state.sessions i = some session →
    state.sessions j = some other → session.position = .returned p version →
    other.position = .returned q made → (version.id = made.id ↔ p.contentHash = q.contentHash)
  numbers : ∃ new : List VersionRow,
    state.committed.siteVersions.rows = start.siteVersions.rows ++ new ∧
    new.map VersionRow.versionNo = List.range' (start.nextVersionNo siteId) new.length

/-- The site is there, and the version table has its unique keys. -/
structure Deployable (siteId : Text) (org : OrgStorage) : Prop where
  site : (org.sites.get? siteId).isSome
  keyed : org.Keyed

theorem Deployable.numbered (deployable : Deployable siteId start) : Numbered siteId start start :=
  ⟨deployable.site, deployable.keyed, [], by simp, by simp, by simp, by simp⟩

private theorem returned_same (sound : (deploys quota siteId).Sound (Numbered siteId start)
      (Creating.Relies siteId) state) {i j : Nat} {p q : CreateSiteVersionParams}
    {version made : VersionRow} (running : state.sessions i = some session)
    (otherRunning : state.sessions j = some other) (here : session.position = .returned p version)
    (there : other.position = .returned q made) : version.id = made.id ↔ p.contentHash = q.contentHash := by
  have first := sound.sessions i session running
  have second := sound.sessions j other otherRunning
  simp only [Creating.Relies, here] at first
  simp only [Creating.Relies, there] at second
  obtain ⟨-, mem, site, hash⟩ := first
  obtain ⟨-, madeMem, madeSite, madeHash⟩ := second
  constructor
  · intro same
    rw [← hash, ← madeHash, Table.eq_of_key _ mem madeMem same]
  · intro same
    rw [sound.store.keyed version mem made madeMem (site.trans madeSite.symm)
      (.inl (hash.trans (same.trans madeHash.symm)))]

/-- As long as no two open calls have both missed one content, the deploys of a
site are all served. -/
theorem deploys_served (unlimited : ∀ tier current delta, quota tier current delta = true)
    (deployable : Deployable siteId start)
    (run : (deploys quota siteId).Run (fun _ => Server.Orderly (fun _ _ => True) fun _ => MissApart)
      (Server.idle start) final) :
    Deployed quota siteId start final := by
  have sound := Server.Sound.run (deploys_discipline unlimited) deployable.numbered run
  refine ⟨fun i session error running failed => ?_, fun i session running unanswered =>
    moves sound running unanswered, fun i session input effect next _ ran => next_steps ran, ?_, ?_, ?_⟩
  · have relies := sound.sessions i session running
    simp only [Creating.Relies, failed] at relies
  · intro i session p version running here
    have relies := sound.sessions i session running
    simp only [Creating.Relies, here] at relies
    exact ⟨relies.2.1, relies.2.2.2⟩
  · intro i j session other p q version made running otherRunning here there
    exact returned_same sound running otherRunning here there
  · obtain ⟨new, rows, nos, -⟩ := sound.store.rows
    exact ⟨new, rows, nos⟩

/-! Two deploys of one content, as a double click makes them, and two of different
contents. -/

def unmetered (_planTier : Text) (_current _delta : Nat) : Bool := true

def shopStorage : OrgStorage where
  planTier := "free".toList
  skillsSeeded := false
  sites := .singleton ⟨['s'], none⟩
  siteVersions := .empty
  skills := .empty
  skillVersions := .empty
  orgBlobs := .empty
  storageBytes := 0
  blobs := .empty
  manifests := .empty

theorem unmetered_never (tier : Text) (current delta : Nat) : unmetered tier current delta = true := rfl

theorem shop_deployable : Deployable ['s'] shopStorage :=
  ⟨rfl, fun _ mem => by cases mem⟩

def shopDeploy (contentHash : Text) : Creating :=
  .getSite ⟨['s'], contentHash, .ready, [⟨['b'], 3⟩]⟩

def shopInput (id : Text) : Input := ⟨id, 0, false⟩

def deployMoves (i : Nat) (id : Text) (statements : Nat) : List (Server.Move Input Creating) :=
  List.replicate statements (.act i (shopInput id))

abbrev shopDeploys := deploys unmetered ['s']

instance : DecidablePred shopDeploys.admits := inferInstanceAs (DecidablePred (Creating.Admitted ['s']))

def doubleClick : List (Server.Move Input Creating) :=
  [.arrive 0 (shopDeploy ['h']), .arrive 1 (shopDeploy ['h'])] ++ deployMoves 0 ['v'] 2 ++
    deployMoves 1 ['w'] 2 ++ deployMoves 0 ['v'] 10 ++ deployMoves 1 ['w'] 7

/-- Both look for the content before either has created its version. -/
theorem double_click_fails : Deployable ['s'] shopStorage ∧ ∃ final,
    Relation.ReflTransGen shopDeploys.Step (Server.idle shopStorage) final ∧
    (final.sessions 1).map Session.position = some (.failed (.db .uniqueViolation)) := by
  have performed : (shopDeploys.performAll 2 (fun _ _ => true) doubleClick
      (Server.idle shopStorage)).bind (fun final => (final.sessions 1).map Session.position) =
        some (.failed (.db .uniqueViolation)) := rfl
  obtain ⟨final, ran, failed⟩ := Option.bind_eq_some_iff.mp performed
  have run := Server.performAll_run (fun _ _ => rfl) ran
  exact ⟨shop_deployable, final, Relation.ReflTransGen.mono (fun _ _ step => step.1) _ _ run, failed⟩

def twoDeploys : List (Server.Move Input Creating) :=
  [.arrive 0 (shopDeploy ['h']), .arrive 1 (shopDeploy ['k'])] ++ deployMoves 0 ['v'] 2 ++
    deployMoves 1 ['w'] 2 ++ deployMoves 0 ['v'] 10 ++ deployMoves 1 ['w'] 8

theorem two_deploys_served : ∃ final, (shopDeploys.performAll 2
      (fun _ => Server.orderly (fun _ _ => true) (fun _ session other => decide (MissApart session other)) 2)
      twoDeploys (Server.idle shopStorage)) = some final ∧
    Deployed unmetered ['s'] shopStorage final := by
  have performed : ((shopDeploys.performAll 2
      (fun _ => Server.orderly (fun _ _ => true) (fun _ session other => decide (MissApart session other)) 2)
      twoDeploys (Server.idle shopStorage))).isSome := by decide
  obtain ⟨final, ran⟩ := Option.isSome_iff_exists.mp performed
  refine ⟨final, ran, deploys_served unmetered_never shop_deployable ?_⟩
  refine Relation.ReflTransGen.mono (fun _ _ step => ⟨step.1, ?_⟩) _ _
    (Server.performAll_run (fun _ _ => rfl) ran)
  obtain ⟨fits, apart⟩ := Server.orderly_sound step.2.2.2 step.2.1
  exact ⟨fun i session running => trivial, fun i j session other different first second =>
    of_decide_eq_true (apart i j session other different first second)⟩

end Dropway.Api
