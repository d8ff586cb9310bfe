import Dropway.Cloud.BillingServer
import Dropway.Proofs.EventOrder

/-! The two copies of an org's tier. A transaction that has written the org's row
of the mirror keeps the others from it until it has written `org_meta` too. A
cancellation that found no row holds nothing. -/

namespace Dropway.Cloud
open Lib
open Lib.ReadCommitted (Session State)

variable {billing : Billing} {fails : Bool} {position later : Processing}
  {effect : Effect BillingChange BillingLock} {changes more : List BillingChange} {change : BillingChange}
  {orgId other : Text} {tier : PlanTier}

/-- The tier of the mirror, as the memory gate reads it. -/
def OrgBilling.mirrored (org : OrgBilling) : PlanTier :=
  (org.subscription.map Subscription.planTier).getD .free

def OrgBilling.Agrees (org : OrgBilling) : Prop := org.mirrored = org.planTier

def Billing.Agree (billing : Billing) : Prop := ∀ orgId, (billing.orgs orgId).Agrees

/-- A transaction that is to write `org_meta` holds the org's row, or finds the
mirror on Free. -/
def HoldsMirror (billing : Billing) (session : Session BillingChange Processing) : Prop :=
  ∀ orgId tier, session.position = .updateOrgMeta orgId tier →
    .subscription orgId ∉ billingServer.locked session → (billing.orgs orgId).mirrored = .free

/-- The transaction has not written to the org. -/
def Processing.Opens : Processing → Prop
  | .updateOrgMeta _ _ | .commit _ _ | .commitCustomer => False
  | _ => True

def BillingChange.Records : BillingChange → Prop
  | .processedEvent _ => True
  | _ => False

/-- The change puts a tier into the mirror. -/
inductive BillingChange.Sets (orgId : Text) : PlanTier → BillingChange → Prop
  | subscription {d : EventData} {orgStatus : OrgStatus} (same : d.orgId = orgId) :
      Sets orgId d.tier (.subscription d orgStatus)
  | canceled {orgStatus : OrgStatus} : Sets orgId .free (.canceled orgId orgStatus)

/-- What a step does. -/
inductive Processing.Does : Processing → Effect BillingChange BillingLock → Processing → Prop
  | rollback {position : Processing} : Does position .rollback .failed
  | read {position later : Processing} {keys : List BillingLock} (before : position.Opens)
      (after : later.Opens) : Does position (.read keys) later
  | record {position later : Processing} {id : Text} (before : position.Opens) (after : later.Opens) :
      Does position (.write (.processedEvent id)) later
  | mirror {position : Processing} {change : BillingChange} {orgId : Text} {tier : PlanTier}
      (before : position.Opens) (sets : change.Sets orgId tier) :
      Does position (.write change) (.updateOrgMeta orgId tier)
  | noMirror {position : Processing} {keys : List BillingLock} {orgId : Text} (before : position.Opens) :
      Does position (.read keys) (.updateOrgMeta orgId .free)
  | orgMeta {orgId : Text} {tier : PlanTier} :
      Does (.updateOrgMeta orgId tier) (.write (.planTier orgId tier)) (.commit orgId tier)
  | customer {position : Processing} {orgId customerId : Text} (before : position.Opens) :
      Does position (.write (.customer orgId customerId)) .commitCustomer
  | commit {position : Processing} (written : ∀ orgId tier, position ≠ .updateOrgMeta orgId tier) :
      Does position .commit .done

theorem Processing.next_does (ran : position.next fails billing = some (effect, later)) :
    position.Does effect later := by
  cases position with
  | done => cases ran
  | failed => cases ran
  | applyEvent ev =>
    simp only [Processing.next] at ran
    split at ran
    · cases ran
      exact .rollback
    · cases ran
      exact .read trivial trivial
    · split at ran
      · cases ran
        exact .rollback
      · cases ran
        exact .read trivial trivial
    · split at ran
      · cases ran
        exact .rollback
      · cases ran
        exact .read trivial trivial
  | markProcessed ev =>
    simp only [Processing.next] at ran
    split at ran
    · cases ran
      exact .rollback
    · split at ran
      · cases ran
        exact .read trivial trivial
      · cases ran
        exact .record trivial trivial
  | readPlanTier ev upserts =>
    simp only [Processing.next] at ran
    split at ran
    · cases ran
      exact .rollback
    · cases ran
      refine .read trivial ?_
      cases upserts <;> trivial
  | probeCustomer ev =>
    simp only [Processing.next] at ran
    split at ran
    · cases ran
      exact .rollback
    · cases ran
      exact .read trivial trivial
  | countSites ev upserts =>
    simp only [Processing.next] at ran
    split at ran
    · cases ran
      exact .rollback
    · cases ran
      refine .read trivial ?_
      cases upserts <;> trivial
  | upsertSubscription ev orgStatus =>
    simp only [Processing.next] at ran
    split at ran
    · cases ran
      exact .rollback
    · cases ran
      exact .mirror trivial (.subscription rfl)
  | cancelSubscription ev orgStatus =>
    simp only [Processing.next] at ran
    split at ran
    · cases ran
      exact .rollback
    · split at ran
      · cases ran
        exact .noMirror trivial
      · cases ran
        exact .mirror trivial .canceled
  | updateOrgMeta orgId tier =>
    simp only [Processing.next] at ran
    split at ran
    · cases ran
      exact .rollback
    · cases ran
      exact .orgMeta
  | commit orgId tier =>
    simp only [Processing.next] at ran
    split at ran
    · cases ran
      exact .rollback
    · cases ran
      exact .commit fun _ _ same => by cases same
  | commitLedger =>
    simp only [Processing.next] at ran
    split at ran
    · cases ran
      exact .rollback
    · cases ran
      exact .commit fun _ _ same => by cases same
  | saveCustomerID orgId customerId =>
    simp only [Processing.next] at ran
    split at ran
    · cases ran
      exact .rollback
    · cases ran
      exact .customer trivial
  | commitCustomer =>
    simp only [Processing.next] at ran
    split at ran
    · cases ran
      exact .rollback
    · cases ran
      exact .commit fun _ _ same => by cases same

/-- What a transaction has written and not committed. -/
inductive Unsettled (billing : Billing) : Processing → List BillingChange → Prop
  | opened {position : Processing} {changes : List BillingChange} (opens : position.Opens)
      (records : ∀ change ∈ changes, change.Records) : Unsettled billing position changes
  | mirrored {orgId : Text} {tier : PlanTier} {changes : List BillingChange} {change : BillingChange}
      (records : ∀ change ∈ changes, change.Records) (sets : change.Sets orgId tier) :
      Unsettled billing (.updateOrgMeta orgId tier) (changes ++ [change])
  | unmirrored {orgId : Text} {changes : List BillingChange} (records : ∀ change ∈ changes, change.Records) :
      Unsettled billing (.updateOrgMeta orgId .free) changes
  | both {orgId : Text} {tier : PlanTier} {changes : List BillingChange} {change : BillingChange}
      (records : ∀ change ∈ changes, change.Records) (sets : change.Sets orgId tier) :
      Unsettled billing (.commit orgId tier) (changes ++ [change] ++ [.planTier orgId tier])
  | orgMeta {orgId : Text} {changes : List BillingChange} (records : ∀ change ∈ changes, change.Records)
      (free : (billing.orgs orgId).mirrored = .free) :
      Unsettled billing (.commit orgId .free) (changes ++ [.planTier orgId .free])
  | customer {orgId customerId : Text} {changes : List BillingChange}
      (records : ∀ change ∈ changes, change.Records) :
      Unsettled billing .commitCustomer (changes ++ [.customer orgId customerId])

theorem applyAll_records (records : ∀ change ∈ changes, change.Records) (billing : Billing) :
    (billingServer.applyAll changes billing).orgs = billing.orgs := by
  induction changes generalizing billing with
  | nil => rfl
  | cons change rest ih =>
    rw [Server.applyAll_cons, ih fun later mem => records later (List.mem_cons_of_mem _ mem)]
    have record := records change List.mem_cons_self
    cases change with
    | processedEvent => rfl
    | _ => cases record

theorem Billing.change_orgs (change : OrgBilling → OrgBilling) :
    (billing.change orgId change).orgs other =
      if other = orgId then change (billing.orgs orgId) else billing.orgs other := by
  simp only [Billing.change, Function.update_apply]

theorem Billing.change_elsewhere {change : OrgBilling → OrgBilling} (apart : other ≠ orgId) :
    (billing.change orgId change).orgs other = billing.orgs other := by
  rw [Billing.change_orgs, if_neg apart]

theorem BillingChange.Sets.mirrored (sets : change.Sets orgId tier) (billing : Billing) :
    ((change.apply billing).orgs orgId).mirrored = tier := by
  cases sets with
  | @subscription d orgStatus same =>
    subst same
    simp only [BillingChange.apply, Billing.change_orgs, if_pos, OrgBilling.mirrored]
    cases (billing.orgs d.orgId).subscription <;> rfl
  | canceled =>
    simp only [BillingChange.apply, Billing.change_orgs, if_pos, OrgBilling.mirrored]
    cases (billing.orgs orgId).subscription <;> rfl

theorem BillingChange.Sets.elsewhere (sets : change.Sets orgId tier) (apart : other ≠ orgId)
    (billing : Billing) : (change.apply billing).orgs other = billing.orgs other := by
  cases sets with
  | subscription same =>
    subst same
    rw [BillingChange.apply, Billing.change_elsewhere apart]
  | canceled => rw [BillingChange.apply, Billing.change_elsewhere apart]

theorem BillingChange.customer_mirrored {customerId : Text} :
    (((BillingChange.customer other customerId).apply billing).orgs orgId).mirrored =
      (billing.orgs orgId).mirrored := by
  simp only [BillingChange.apply, Billing.change_orgs]
  split
  · rename_i same
    subst same
    cases row : (billing.orgs orgId).subscription with
    | none => simp [OrgBilling.mirrored, row, Subscription.ofCustomer]
    | some old => simp [OrgBilling.mirrored, row]
  · rfl

theorem BillingChange.customer_planTier {customerId : Text} :
    (((BillingChange.customer other customerId).apply billing).orgs orgId).planTier =
      (billing.orgs orgId).planTier := by
  simp only [BillingChange.apply, Billing.change_orgs]
  split
  · rename_i same
    rw [same]
  · rfl

theorem BillingChange.planTier_mirrored :
    (((BillingChange.planTier other tier).apply billing).orgs orgId).mirrored =
      (billing.orgs orgId).mirrored := by
  simp only [BillingChange.apply, Billing.change_orgs]
  split
  · rename_i same
    rw [same]
    rfl
  · rfl

private theorem agree_planTier (free : (billing.orgs orgId).mirrored = tier)
    (agree : ∀ other, other ≠ orgId → (billing.orgs other).Agrees) :
    ((BillingChange.planTier orgId tier).apply billing).Agree := by
  intro other
  by_cases same : other = orgId
  · subst same
    refine BillingChange.planTier_mirrored.trans ?_
    simp only [BillingChange.apply, Billing.change_orgs, if_pos, free]
  · rw [BillingChange.apply, Billing.change_elsewhere same]
    exact agree other same

/-- A transaction that commits leaves the two copies of every org the same. -/
theorem Unsettled.agree (unsettled : Unsettled billing position changes) (agree : billing.Agree)
    (written : ∀ orgId tier, position ≠ .updateOrgMeta orgId tier) :
    (billingServer.applyAll changes billing).Agree := by
  cases unsettled with
  | opened opens records =>
    intro orgId
    rw [applyAll_records records]
    exact agree orgId
  | mirrored => exact absurd rfl (written _ _)
  | unmirrored => exact absurd rfl (written _ _)
  | @both orgId tier changes change records sets =>
    rw [Server.applyAll_append, Server.applyAll_append]
    apply agree_planTier (sets.mirrored _)
    intro other apart
    have kept : (change.apply (billingServer.applyAll changes billing)).orgs other = billing.orgs other := by
      rw [sets.elsewhere apart, applyAll_records records]
    exact kept ▸ agree other
  | @orgMeta orgId changes records free =>
    rw [Server.applyAll_append]
    apply agree_planTier
    · rw [applyAll_records records]
      exact free
    · intro other apart
      rw [applyAll_records records]
      exact agree other
  | customer records =>
    intro orgId
    rw [Server.applyAll_append]
    refine BillingChange.customer_mirrored.trans (Eq.trans ?_ BillingChange.customer_planTier.symm)
    rw [applyAll_records records]
    exact agree orgId

/-- A commit moves the mirror of an org only with the lock on its `org_meta` row. -/
theorem Unsettled.mirrored_kept (unsettled : Unsettled billing position changes)
    (written : ∀ orgId tier, position ≠ .updateOrgMeta orgId tier)
    (unlocked : .orgMeta orgId ∉ changes.flatMap BillingChange.locks) :
    ((billingServer.applyAll changes billing).orgs orgId).mirrored = (billing.orgs orgId).mirrored := by
  cases unsettled with
  | opened opens records => rw [applyAll_records records]
  | mirrored => exact absurd rfl (written _ _)
  | unmirrored => exact absurd rfl (written _ _)
  | @both other tier changes change records sets =>
    have apart : orgId ≠ other := by
      intro same
      apply unlocked
      simp [same, BillingChange.locks]
    rw [Server.applyAll_append, Server.applyAll_append]
    refine BillingChange.planTier_mirrored.trans ?_
    have kept : (change.apply (billingServer.applyAll changes billing)).orgs orgId = billing.orgs orgId := by
      rw [sets.elsewhere apart, applyAll_records records]
    exact congrArg OrgBilling.mirrored kept
  | orgMeta records free =>
    rw [Server.applyAll_append]
    refine BillingChange.planTier_mirrored.trans ?_
    rw [applyAll_records records]
  | customer records =>
    rw [Server.applyAll_append]
    refine BillingChange.customer_mirrored.trans ?_
    rw [applyAll_records records]

private theorem records_concat {id : Text} (records : ∀ change ∈ changes, change.Records) :
    ∀ change ∈ changes ++ [.processedEvent id], change.Records := by
  intro change mem
  rcases List.mem_append.mp mem with mem | mem
  · exact records change mem
  · rw [List.mem_singleton.mp mem]
    trivial

private theorem Unsettled.records (unsettled : Unsettled billing position changes)
    (opens : position.Opens) : ∀ change ∈ changes, change.Records := by
  cases unsettled with
  | opened _ records => exact records
  | _ => cases opens

private theorem records_unlocked (records : ∀ change ∈ changes, change.Records) :
    .subscription orgId ∉ changes.flatMap BillingChange.locks := by
  intro mem
  obtain ⟨change, present, held⟩ := List.mem_flatMap.mp mem
  have record := records change present
  cases change with
  | processedEvent => simp [BillingChange.locks] at held
  | _ => cases record

private theorem Unsettled.request (does : position.Does effect later)
    (unsettled : Unsettled billing position changes) (holds : HoldsMirror billing ⟨position, changes⟩) :
    Unsettled (billingServer.store billing changes effect) later (Server.pending changes effect) := by
  have none : ∀ change ∈ ([] : List BillingChange), change.Records := fun change mem => by cases mem
  cases does with
  | rollback => exact .opened trivial none
  | commit => exact .opened trivial none
  | read before after => exact .opened after (unsettled.records before)
  | record before after => exact .opened after (records_concat (unsettled.records before))
  | mirror before sets => exact .mirrored (unsettled.records before) sets
  | noMirror before => exact .unmirrored (unsettled.records before)
  | customer before => exact .customer (unsettled.records before)
  | orgMeta =>
    cases unsettled with
    | opened opens => cases opens
    | mirrored records sets => exact .both records sets
    | unmirrored records => exact .orgMeta records (holds _ _ rfl (records_unlocked records))

private theorem Unsettled.others (unsettled : Unsettled billing position changes)
    {theirs : Processing} (does : theirs.Does effect later) (other : Unsettled billing theirs more)
    (exclusive : ∀ key ∈ changes.flatMap BillingChange.locks, key ∉ more.flatMap BillingChange.locks) :
    Unsettled (billingServer.store billing more effect) position changes := by
  have unchanged (same : billingServer.store billing more effect = billing) :
      Unsettled (billingServer.store billing more effect) position changes := by
    rw [same]
    exact unsettled
  cases does with
  | commit written =>
    cases unsettled with
    | opened opens records => exact .opened opens records
    | mirrored records sets => exact .mirrored records sets
    | unmirrored records => exact .unmirrored records
    | both records sets => exact .both records sets
    | customer records => exact .customer records
    | orgMeta records free =>
      refine .orgMeta records ((other.mirrored_kept written ?_).trans free)
      apply exclusive
      simp [BillingChange.locks]
  | _ => exact unchanged rfl

theorem billing_discipline : billingServer.Discipline Billing.Agree
    (fun billing session => Unsettled billing session.position session.pending) HoldsMirror
    fun _ _ _ => True where
  arrives := by
    intro billing position agree starts
    refine .opened ?_ fun change mem => by cases mem
    cases starts <;> trivial
  store := by
    intro billing ⟨position, changes⟩ fails effect later agree unsettled holds ran
    cases Processing.next_does ran with
    | commit written => exact unsettled.agree agree written
    | _ => exact agree
  request := by
    intro billing session fails effect later agree unsettled holds ran
    exact Unsettled.request (Processing.next_does ran) unsettled holds
  others := by
    intro billing session other fails effect later agree unsettled theirs holds _ _ exclusive ran
    exact unsettled.others (Processing.next_does ran) theirs exclusive

/-- Whatever is committed, the two copies of every org's tier are the same. -/
theorem plan_tiers_agree {start : Billing} {final : State Billing BillingChange Processing}
    (begins : start.Agree)
    (run : Relation.ReflTransGen (billingServer.Guarded HoldsMirror) (Server.idle start) final) :
    ∀ orgId, (final.committed.orgs orgId).Agrees :=
  (Server.Sound.guarded_run billing_discipline begins run).store

/-! Stripe reports a subscription that waits for its payment and, at once, the payment. -/

def proIncomplete : Event :=
  ⟨['1'], .subscriptionCreated, { proData with status := "incomplete".toList }⟩

def proPaid : Event := ⟨['2'], .subscriptionUpdated, proData⟩

def billingMoves (i n : Nat) : List (Server.Move Bool Processing) := List.replicate n (.act i false)

instance : DecidablePred billingServer.admits := fun position =>
  inferInstanceAs (Decidable (Processing.Starts position))

/-- The cancellation looks for a row before the payment has made one, and writes
`org_meta` after it. -/
def cancelsBlindly : List (Server.Move Bool Processing) :=
  [.arrive 0 (.markProcessed proIncomplete)] ++ billingMoves 0 5 ++
    [.arrive 1 (.markProcessed proPaid)] ++ billingMoves 1 8 ++ billingMoves 0 2

theorem free_agree : freeBilling.Agree := fun _ => rfl

theorem paid_on_free : freeBilling.Agree ∧ ∃ final,
    Relation.ReflTransGen billingServer.Step (Server.idle freeBilling) final ∧ Server.Quiet final ∧
      (final.committed.orgs ['o']).mirrored = .pro ∧ (final.committed.orgs ['o']).planTier = .free := by
  have performed : (billingServer.performAll 2 (fun _ _ => true) cancelsBlindly (Server.idle freeBilling)).map
      (fun final => ((List.range 2).all fun i => (final.sessions i).all fun session => session.pending.isEmpty,
        (final.committed.orgs ['o']).mirrored, (final.committed.orgs ['o']).planTier)) =
      some (true, .pro, .free) := rfl
  obtain ⟨final, ran, same⟩ := Option.map_eq_some_iff.mp performed
  obtain ⟨closed, mirrored, planTier⟩ : _ ∧ _ ∧ _ := by simpa only [Prod.mk.injEq] using same
  have idle : Server.Below 2 (Server.idle freeBilling : State Billing BillingChange Processing) :=
    fun _ _ => rfl
  refine ⟨free_agree, final, Relation.ReflTransGen.mono (fun _ _ step => step.1) _ _
    (Server.performAll_run idle ran), ?_, mirrored, planTier⟩
  exact Server.quiet_below (Server.performAll_below idle ran) closed

/-- `HoldsMirror`, decided. -/
def holdsMirror (billing : Billing) (session : Session BillingChange Processing) : Bool :=
  match session.position with
  | .updateOrgMeta orgId _ =>
    decide (.subscription orgId ∈ billingServer.locked session) ||
      decide ((billing.orgs orgId).mirrored = .free)
  | _ => true

private theorem holdsMirror_sound {session : Session BillingChange Processing}
    (holds : holdsMirror billing session = true) : HoldsMirror billing session := by
  intro orgId tier here unlocked
  rw [holdsMirror, here] at holds
  rcases (Bool.or_eq_true _ _).mp holds with held | free
  · exact absurd (of_decide_eq_true held) unlocked
  · exact of_decide_eq_true free

def cancelsInTime : List (Server.Move Bool Processing) :=
  [.arrive 0 (.markProcessed proIncomplete)] ++ billingMoves 0 5 ++
    [.arrive 1 (.markProcessed proPaid)] ++ billingMoves 1 6 ++ billingMoves 0 2 ++ billingMoves 1 2

def heldBelow (n : Nat) (before _ : State Billing BillingChange Processing) : Bool :=
  Server.orderly holdsMirror (fun _ _ _ => true) n before

theorem paid_in_turn : ∃ final, billingServer.performAll 2 (heldBelow 2) cancelsInTime
    (Server.idle freeBilling) = some final ∧ ∀ orgId, (final.committed.orgs orgId).Agrees := by
  have performed : (billingServer.performAll 2 (heldBelow 2) cancelsInTime
    (Server.idle freeBilling)).isSome = true := rfl
  obtain ⟨final, ran⟩ := Option.isSome_iff_exists.mp performed
  have idle : Server.Below 2 (Server.idle freeBilling : State Billing BillingChange Processing) :=
    fun _ _ => rfl
  refine ⟨final, ran, plan_tiers_agree free_agree ?_⟩
  refine Relation.ReflTransGen.mono (fun before after step => ?_) _ _ (Server.performAll_run idle ran)
  apply step.1.guarded
  intro i session running
  exact holdsMirror_sound ((Server.orderly_sound step.2.2.1 step.2.1).fits i session running)

end Dropway.Cloud
