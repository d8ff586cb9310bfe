import Dropway.Proofs.Deliveries

/-! The ledger drops replays, but nothing orders two events: what the one that is
delivered last grants replaces what was there. -/

namespace Dropway.Cloud
open Lib

variable {start : OrgBilling} {orgId : Text} {events : List Event} {billing : Billing}
  {attempts : List (Event × Bool)}

private theorem any_same {one two : List Event} (same : ∀ ev, ev ∈ one ↔ ev ∈ two) :
    one.any Event.upserts = two.any Event.upserts := by
  rw [Bool.eq_iff_iff, List.any_eq_true, List.any_eq_true]
  exact exists_congr fun ev => and_congr_left fun _ => same ev

private theorem grant_idle {grant : Grant} (idle : events.any Event.upserts = false)
    (found : lastOf Event.grant events = some grant) : grant = .cancel := by
  obtain ⟨ev, mem, granted⟩ := exists_of_lastOf found
  simpa [Event.upserts, granted] using List.any_eq_false.mp idle ev mem

/-- The tier and the status tell which grant was the last. -/
private theorem grant_same {one two : List Event} {grant other : Grant} {seats count : Option Int}
    (same : ∀ ev, ev ∈ one ↔ ev ∈ two) (last : lastOf Event.grant one = some grant)
    (otherLast : lastOf Event.grant two = some other)
    (outcome : start.leftWith (some grant) seats (two.any Event.upserts) =
      start.leftWith (some other) count (two.any Event.upserts)) : grant = other := by
  cases upserted : two.any Event.upserts with
  | false => rw [grant_idle upserted otherLast, grant_idle (any_same same ▸ upserted) last]
  | true =>
    have tiers := congrArg Outcome.planTier outcome
    have statuses := congrArg Outcome.status outcome
    simp only [OrgBilling.leftWith, upserted, Option.map_some, Option.getD_some, Bool.true_or, if_true,
      Option.some_or, Option.some.injEq] at tiers statuses
    cases grant with
    | cancel =>
      cases other with
      | cancel => rfl
      | upsert tier status => exact absurd statuses.symm (lastOf_grant_status otherLast)
    | upsert tier status =>
      cases other with
      | cancel => exact absurd statuses (lastOf_grant_status last)
      | upsert tier_ status_ =>
        obtain rfl : tier = tier_ := tiers
        obtain rfl : status = status_ := statuses
        rfl

/-- Two orders of the same events leave the same outcome just where their last
grants and their last seat counts are the same. -/
private theorem outcome_iff {one two : List Event} (same : ∀ ev, ev ∈ one ↔ ev ∈ two)
    (fulfillable : ∀ ev ∈ one, ev.Fulfillable orgId) :
    (start.takeAll one).outcome = (start.takeAll two).outcome ↔
      lastOf Event.grant one = lastOf Event.grant two ∧
        lastOf Event.seatCount one = lastOf Event.seatCount two := by
  have first := takeAll_outcome start fulfillable
  have second := takeAll_outcome start fun ev mem => fulfillable ev ((same ev).mpr mem)
  rw [first, second, any_same same]
  constructor
  · intro outcome
    refine ⟨?_, ?_⟩
    · cases last : lastOf Event.grant one with
      | none => exact ((lastOf_none_perm same).mp last).symm
      | some grant =>
        cases other : lastOf Event.grant two with
        | none => rw [(lastOf_none_perm same).mpr other] at last; cases last
        | some grant_ =>
          rw [last, other] at outcome
          exact congrArg some (grant_same same last other outcome)
    · cases last : lastOf Event.seatCount one with
      | none => exact ((lastOf_none_perm same).mp last).symm
      | some seats =>
        cases other : lastOf Event.seatCount two with
        | none => rw [(lastOf_none_perm same).mpr other] at last; cases last
        | some seats_ =>
          have upserted : two.any Event.upserts = true := by
            rw [← Bool.not_eq_false]
            intro idle
            rw [unseated idle] at other
            cases other
          have seated := congrArg Outcome.seats outcome
          simpa [OrgBilling.leftWith, upserted, last, other] using seated
  · rintro ⟨grants, seats⟩
    rw [grants, seats]

/-- A delivery leaves what the history leaves just where the event that is first
delivered last grants what the last event of the history grants, and so for the
last event that carries seats. -/
theorem delivery_outcome_iff (history : History billing orgId events) (delivers : Delivers events attempts) :
    ((billing.deliverAll attempts).orgs orgId).outcome =
      ((billing.deliverAll (inOrder events)).orgs orgId).outcome ↔
    lastOf Event.grant (firstDeliveries attempts) = lastOf Event.grant events ∧
      lastOf Event.seatCount (firstDeliveries attempts) = lastOf Event.seatCount events := by
  rw [deliverAll_first history delivers, deliverAll_inOrder history]
  have same : ∀ ev, ev ∈ firstDeliveries attempts ↔ ev ∈ events := fun ev =>
    mem_firstDeliveries.trans ⟨delivers.only (ev, false), delivers.every ev⟩
  exact outcome_iff same fun ev mem => history.fulfillable ev ((same ev).mp mem)

/-! A subscription is created and deleted. -/

def proData : EventData where
  orgId := ['o']
  stripeCustomerId := ['c']
  stripeSubscriptionId := ['s']
  planTier := some .pro
  seats := 5
  status := "active".toList
  currentPeriodStart := 0
  currentPeriodEnd := 0
  cancelAtPeriodEnd := false
  unknownPrice := false

def proCreated : Event := ⟨['1'], .subscriptionCreated, proData⟩

def proDeleted : Event := ⟨['2'], .subscriptionDeleted, proData⟩

def freeBilling : Billing := ⟨[], fun _ => ⟨.free, 0, none⟩⟩

theorem pro_history : History freeBilling ['o'] [proCreated, proDeleted] where
  fulfillable ev mem := by
    have data : ev.data = proData := by
      rcases List.mem_cons.mp mem with rfl | mem
      · rfl
      · rw [List.mem_singleton.mp mem]
        rfl
    exact ⟨data ▸ rfl, List.cons_ne_nil _ _, data ▸ List.cons_ne_nil _ _, data ▸ rfl⟩
  distinct := by simp [proCreated, proDeleted]
  fresh ev mem := List.not_mem_nil

/-- Delivered the other way round, the subscription that is gone stays paid for. -/
theorem deletion_overtaken : History freeBilling ['o'] [proCreated, proDeleted] ∧
    Delivers [proCreated, proDeleted] [(proDeleted, false), (proCreated, false)] ∧
    ((freeBilling.deliverAll [(proDeleted, false), (proCreated, false)]).orgs ['o']).planTier = .pro ∧
    ((freeBilling.deliverAll (inOrder [proCreated, proDeleted])).orgs ['o']).planTier = .free := by
  refine ⟨pro_history, ⟨?_, ?_⟩, rfl, rfl⟩
  · simp
  · simp

def proAttempts : List (Event × Bool) :=
  [(proCreated, true), (proCreated, false), (proDeleted, true), (proCreated, false), (proDeleted, false)]

theorem pro_delivered : ((freeBilling.deliverAll proAttempts).orgs ['o']).outcome =
      ((freeBilling.deliverAll (inOrder [proCreated, proDeleted])).orgs ['o']).outcome ↔
    lastOf Event.grant (firstDeliveries proAttempts) = lastOf Event.grant [proCreated, proDeleted] ∧
      lastOf Event.seatCount (firstDeliveries proAttempts) =
        lastOf Event.seatCount [proCreated, proDeleted] :=
  delivery_outcome_iff pro_history ⟨by simp [proAttempts], by simp [proAttempts]⟩

end Dropway.Cloud
