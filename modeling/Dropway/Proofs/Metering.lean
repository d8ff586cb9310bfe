import Dropway.Api.Deploys

/-! What the storage meter does to the rows of an org. -/

namespace Dropway.Api
open Lib

variable {quota : StorageQuota} {org : OrgStorage} {metering next : Metering} {change : Change}
  {effect : Effect Change LockKey}

/-- The changes that metering makes. -/
inductive Change.Meters : Change → Prop
  | storageQuota : Meters .storageQuota
  | orgBlob (row : OrgBlob) : Meters (.orgBlob row)
  | addStorage (delta : Nat) : Meters (.addStorage delta)

/-- Metering reads and writes, under the lock that it takes first. -/
theorem Metering.next_effect (ran : metering.next quota org = some (.ok (effect, next))) :
    (∃ keys, effect = .read keys) ∨ ∃ change, effect = .write change ∧ change.Meters := by
  cases metering with
  | lockOrgStorageQuota capped blobs =>
    cases ran
    exact .inr ⟨_, rfl, .storageQuota⟩
  | getOrgStorage blobs =>
    cases ran
    exact .inl ⟨_, rfl⟩
  | insertOrgBlob capped current delta rest =>
    cases rest with
    | nil =>
      cases ran
      exact .inl ⟨_, rfl⟩
    | cons blob rest =>
      simp only [Metering.next] at ran
      split at ran
      · cases ran
        exact .inl ⟨_, rfl⟩
      · split at ran
        · cases ran
          exact .inl ⟨_, rfl⟩
        · cases ran
          exact .inr ⟨_, rfl, .orgBlob _⟩
  | getPlanTier current delta =>
    simp only [Metering.next] at ran
    split at ran
    · cases ran
      exact .inl ⟨_, rfl⟩
    · cases ran
  | addOrgStorage delta =>
    cases ran
    exact .inr ⟨_, rfl, .addStorage _⟩
  | metered => cases ran

/-- Without the lock there is only the start. -/
def Metering.Starts : Metering → Prop
  | .lockOrgStorageQuota _ _ => True
  | _ => False

theorem Metering.next_locked (ran : metering.next quota org = some (.ok (effect, next))) :
    ¬ next.Starts := by
  cases metering with
  | lockOrgStorageQuota capped blobs =>
    cases ran
    cases capped <;> exact id
  | getOrgStorage blobs =>
    cases ran
    exact id
  | insertOrgBlob capped current delta rest =>
    cases rest with
    | nil =>
      cases ran
      unfold Metering.sum
      split
      · exact id
      · split <;> exact id
    | cons blob rest =>
      simp only [Metering.next] at ran
      split at ran
      · cases ran
        exact id
      · split at ran <;> (cases ran; exact id)
  | getPlanTier current delta =>
    simp only [Metering.next] at ran
    split at ran
    · cases ran
      exact id
    · cases ran
  | addOrgStorage delta =>
    cases ran
    exact id
  | metered => cases ran

theorem Metering.next_starts (starts : metering.Starts)
    (ran : metering.next quota org = some (.ok (effect, next))) : effect = .write .storageQuota := by
  cases metering with
  | lockOrgStorageQuota capped blobs =>
    cases ran
    rfl
  | _ => cases starts

theorem Metering.start_starts {capped : Bool} {blobs : List BlobSize} (some : blobs ≠ []) :
    (Metering.start capped blobs).Starts := by
  rw [Metering.start, if_neg some]
  trivial

/-- How many statements metering takes at most. -/
def Metering.steps : Metering → Nat
  | .lockOrgStorageQuota _ blobs => blobs.length + 5
  | .getOrgStorage blobs => blobs.length + 4
  | .insertOrgBlob _ _ _ rest => rest.length + 3
  | .getPlanTier _ _ => 2
  | .addOrgStorage _ => 1
  | .metered => 0

theorem Metering.start_steps (capped : Bool) (blobs : List BlobSize) :
    (Metering.start capped blobs).steps ≤ blobs.length + 5 := by
  unfold Metering.start
  split
  · exact Nat.zero_le _
  · exact Nat.le_refl _

theorem Metering.next_steps (ran : metering.next quota org = some (.ok (effect, next))) :
    next.steps < metering.steps := by
  cases metering with
  | lockOrgStorageQuota capped blobs =>
    cases ran
    cases capped <;> simp [Metering.steps]
  | getOrgStorage blobs =>
    cases ran
    simp [Metering.steps]
  | insertOrgBlob capped current delta rest =>
    cases rest with
    | nil =>
      cases ran
      unfold Metering.sum
      split
      · simp [Metering.steps]
      · split <;> simp [Metering.steps]
    | cons blob rest =>
      simp only [Metering.next] at ran
      split at ran
      · cases ran
        simp [Metering.steps]
      · split at ran <;> (cases ran; simp [Metering.steps])
  | getPlanTier current delta =>
    simp only [Metering.next] at ran
    split at ran
    · cases ran
      simp [Metering.steps]
    · cases ran
  | addOrgStorage delta =>
    cases ran
    simp [Metering.steps]
  | metered => cases ran

theorem Metering.next_none (ended : metering.next quota org = none) : metering = .metered := by
  cases metering with
  | metered => rfl
  | insertOrgBlob capped current delta rest =>
    cases rest with
    | nil => cases ended
    | cons blob rest =>
      simp only [Metering.next] at ended
      split at ended
      · cases ended
      · split at ended <;> cases ended
  | getPlanTier current delta =>
    simp only [Metering.next] at ended
    split at ended <;> cases ended
  | _ => cases ended

/-- Only the quota refuses. -/
theorem Metering.next_ok (metering : Metering) (org : OrgStorage)
    (never : ∀ tier current delta, quota tier current delta = true) :
    metering.next quota org = none ∧ metering = .metered ∨
      ∃ effect next, metering.next quota org = some (.ok (effect, next)) := by
  cases metering with
  | insertOrgBlob capped current delta rest =>
    cases rest with
    | nil => exact .inr ⟨_, _, rfl⟩
    | cons blob rest =>
      refine .inr ?_
      simp only [Metering.next]
      split
      · exact ⟨_, _, rfl⟩
      · split <;> exact ⟨_, _, rfl⟩
  | getPlanTier current delta =>
    refine .inr ?_
    simp only [Metering.next, never, if_true]
    exact ⟨_, _, rfl⟩
  | metered => exact .inl ⟨rfl, rfl⟩
  | _ => exact .inr ⟨_, _, rfl⟩

theorem Change.Meters.siteVersions (meters : change.Meters) :
    (change.apply org).siteVersions = org.siteVersions := by
  cases meters <;> rfl

theorem Change.Meters.sites (meters : change.Meters) : (change.apply org).sites = org.sites := by
  cases meters <;> rfl

end Dropway.Api
