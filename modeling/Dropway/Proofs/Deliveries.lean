import Dropway.Cloud.Billing
import Dropway.Lib.LastOf
import Mathlib.Data.List.Induction
import Mathlib.Data.List.Nodup

/-! What the events of an org leave it with: the last one that grants or withdraws
something decides, and the ledger lets each event count once. -/

namespace Dropway.Cloud
open Lib

variable {org start : OrgBilling} {orgId : Text} {ev : Event} {events done : List Event}
  {billing : Billing} {attempts : List (Event × Bool)}

/-- What an event leaves an org with. -/
inductive Grant where
  | upsert (tier : PlanTier) (status : SubscriptionStatus)
  | cancel
  deriving DecidableEq

def Event.grant (ev : Event) : Option Grant :=
  match ev.entitlement with
  | .ok .upsert => some (.upsert ev.data.tier (normalizeStatus ev.data.status))
  | .ok .cancel => some .cancel
  | _ => none

/-- The seats that an event carries. -/
def Event.seatCount (ev : Event) : Option Int :=
  match ev.entitlement with
  | .ok .upsert => if ev.data.seats = 0 then none else some ev.data.seats
  | _ => none

/-- The event names its org and its customer, and its seats fit the column. -/
structure Event.Fulfillable (orgId : Text) (ev : Event) : Prop where
  org : ev.data.orgId = orgId
  named : orgId ≠ []
  customer : ev.data.stripeCustomerId ≠ []
  seats : fitsSeats ev.data.seats = true

/-- The org after an attempt at an event that is not recorded yet. -/
def OrgBilling.take (org : OrgBilling) (ev : Event) : OrgBilling :=
  match ev.applyTo org with
  | .ok org => org
  | .error _ => org

def OrgBilling.takeAll (org : OrgBilling) (events : List Event) : OrgBilling := events.foldl OrgBilling.take org

/-- The part of an org's state that the events decide. -/
structure Outcome where
  planTier : PlanTier
  status : Option SubscriptionStatus
  seats : Option Int
  orgStatus : Option OrgStatus
  deriving DecidableEq

def OrgBilling.outcome (org : OrgBilling) : Outcome where
  planTier := org.planTier
  status := org.subscription.map Subscription.status
  seats := org.subscription.map Subscription.seats
  orgStatus := org.subscription.map Subscription.orgStatus

def Grant.tier : Grant → PlanTier
  | .upsert tier _ => tier
  | .cancel => .free

def Grant.status : Grant → SubscriptionStatus
  | .upsert _ status => status
  | .cancel => .canceled

/-- The event inserts or updates the row. -/
def Event.upserts (ev : Event) : Bool := ev.grant.any fun grant => decide (grant ≠ .cancel)

/-- What is left of a start by a last grant and a last seat count. -/
def OrgBilling.leftWith (start : OrgBilling) (grant : Option Grant) (seats : Option Int) (upserted : Bool) :
    Outcome where
  planTier := (grant.map Grant.tier).getD start.planTier
  status :=
    if upserted || start.subscription.isSome then
      (grant.map Grant.status).or (start.subscription.map Subscription.status)
    else none
  seats :=
    if upserted || start.subscription.isSome then
      some ((seats.or (start.subscription.map Subscription.seats)).getD 0)
    else none
  orgStatus :=
    if upserted || start.subscription.isSome then
      (grant.map fun grant => orgStatusFor start.sites grant.tier).or
        (start.subscription.map Subscription.orgStatus)
    else none

private theorem upsert_taken (fulfillable : ev.Fulfillable orgId) (upsert : ev.entitlement = .ok .upsert) :
    org.take ev = { org with
      planTier := ev.data.tier
      subscription := some (ev.data.merge (orgStatusFor org.sites ev.data.tier) org.subscription) } := by
  have named : ev.data.orgId ≠ [] := fulfillable.org ▸ fulfillable.named
  have filled : org.unfulfillable ev.data = false := by
    simp [OrgBilling.unfulfillable, fulfillable.customer]
  have fits := fulfillable.seats
  simp only [OrgBilling.take, Event.applyTo, upsert, OrgBilling.upsertSubscription, if_neg named, filled,
    Bool.false_eq_true, if_false, fits, if_true]

private theorem cancel_taken (fulfillable : ev.Fulfillable orgId) (cancel : ev.entitlement = .ok .cancel) :
    org.take ev = { org with
      planTier := .free
      subscription := org.subscription.map fun row => row.cancel (orgStatusFor org.sites .free) } := by
  have named : ev.data.orgId ≠ [] := fulfillable.org ▸ fulfillable.named
  simp only [OrgBilling.take, Event.applyTo, cancel, OrgBilling.setCanceled, if_neg named]

private theorem entitled_of_upsert (upsert : ev.entitlement = .ok .upsert) :
    isEntitledStatus ev.data.status = true := by
  unfold Event.entitlement at upsert
  split at upsert
  all_goals first
    | (split at upsert <;> [cases upsert; (split at upsert <;> [assumption; cases upsert])])
    | cases upsert

private theorem entitled_kept {status : Text} (entitled : isEntitledStatus status = true) :
    normalizeStatus status ≠ .canceled := by
  simp only [isEntitledStatus, Bool.or_eq_true, decide_eq_true_eq] at entitled
  rcases entitled with (rfl | rfl) | rfl <;> decide

theorem lastOf_grant_status {status : SubscriptionStatus} {tier : PlanTier}
    (found : lastOf Event.grant events = some (.upsert tier status)) : status ≠ .canceled := by
  obtain ⟨ev, -, grant⟩ := exists_of_lastOf found
  unfold Event.grant at grant
  split at grant
  · rename_i upsert
    cases grant
    exact entitled_kept (entitled_of_upsert upsert)
  · cases grant
  · cases grant

/-- Only a row has seats. -/
theorem unseated (idle : events.any Event.upserts = false) : lastOf Event.seatCount events = none := by
  rw [lastOf_eq_none]
  intro ev mem
  have other := List.any_eq_false.mp idle ev mem
  unfold Event.upserts Event.grant at other
  unfold Event.seatCount
  split
  · rename_i upsert
    simp [upsert] at other
  · rfl

private theorem merge_seats (d : EventData) (orgStatus : OrgStatus) (row : Option Subscription) :
    (d.merge orgStatus row).seats =
      ((if d.seats = 0 then none else some d.seats).or (row.map Subscription.seats)).getD 0 := by
  by_cases zero : d.seats = 0
  · cases row <;> simp [EventData.merge, zero]
  · cases row <;> simp [EventData.merge, zero]

private theorem merge_status (d : EventData) (orgStatus : OrgStatus) (row : Option Subscription) :
    (d.merge orgStatus row).status = normalizeStatus d.status := by
  cases row <;> rfl

private theorem merge_orgStatus (d : EventData) (orgStatus : OrgStatus) (row : Option Subscription) :
    (d.merge orgStatus row).orgStatus = orgStatus := by
  cases row <;> rfl

/-- Where a list of events has brought an org: what the last grant and the last
seat count leave. -/
private structure Left (start : OrgBilling) (events : List Event) (org : OrgBilling) : Prop where
  outcome : org.outcome =
    start.leftWith (lastOf Event.grant events) (lastOf Event.seatCount events) (events.any Event.upserts)
  there : org.subscription.isSome = (events.any Event.upserts || start.subscription.isSome)
  sites : org.sites = start.sites

private theorem Left.nil (start : OrgBilling) : Left start [] start := by
  refine ⟨?_, by simp, rfl⟩
  cases found : start.subscription <;> simp [OrgBilling.outcome, OrgBilling.leftWith, found]

private theorem Left.kept (left : Left start done org) (grant : ev.grant = none) (seats : ev.seatCount = none) :
    Left start (done ++ [ev]) org := by
  have upserts : (done ++ [ev]).any Event.upserts = done.any Event.upserts := by
    simp [Event.upserts, grant]
  refine ⟨?_, ?_, left.sites⟩
  · rw [lastOf_concat, lastOf_concat, upserts, grant, seats]
    exact left.outcome
  · rw [upserts]
    exact left.there

private theorem Left.seats (left : Left start done org) : (org.subscription.map Subscription.seats).getD 0 =
    ((lastOf Event.seatCount done).or (start.subscription.map Subscription.seats)).getD 0 := by
  have seats : org.subscription.map Subscription.seats = _ := congrArg Outcome.seats left.outcome
  rw [seats]
  cases upserted : (done.any Event.upserts || start.subscription.isSome) with
  | true => simp [OrgBilling.leftWith, upserted]
  | false =>
    obtain ⟨idle, absent⟩ := Bool.or_eq_false_iff.mp upserted
    have bare : start.subscription = none := by simpa using absent
    simp [OrgBilling.leftWith, idle, unseated idle, bare]

private theorem Left.upsert (left : Left start done org) (upsert : ev.entitlement = .ok .upsert) :
    Left start (done ++ [ev]) { org with
      planTier := ev.data.tier
      subscription := some (ev.data.merge (orgStatusFor org.sites ev.data.tier) org.subscription) } := by
  have grant : ev.grant = some (.upsert ev.data.tier (normalizeStatus ev.data.status)) := by
    simp only [Event.grant, upsert]
  have count : ev.seatCount = if ev.data.seats = 0 then none else some ev.data.seats := by
    simp only [Event.seatCount, upsert]
  have upserts : (done ++ [ev]).any Event.upserts = true := by
    simp [Event.upserts, grant]
  refine ⟨?_, by rw [upserts]; rfl, left.sites⟩
  rw [lastOf_concat, lastOf_concat, upserts, grant, count]
  simp only [OrgBilling.outcome, OrgBilling.leftWith, Option.some_or, Option.map_some, Option.getD_some,
    Bool.true_or, if_true, merge_status, merge_orgStatus, merge_seats, left.sites, Outcome.mk.injEq, Option.some.injEq]
  refine ⟨rfl, rfl, ?_, rfl⟩
  by_cases zero : ev.data.seats = 0
  · simpa only [zero, if_true, Option.none_or] using left.seats
  · simp only [zero, if_false, Option.some_or, Option.getD_some]

private theorem Left.cancel (left : Left start done org) (cancel : ev.entitlement = .ok .cancel) :
    Left start (done ++ [ev]) { org with
      planTier := .free
      subscription := org.subscription.map fun row => row.cancel (orgStatusFor org.sites .free) } := by
  have grant : ev.grant = some .cancel := by simp only [Event.grant, cancel]
  have count : ev.seatCount = none := by simp only [Event.seatCount, cancel]
  have upserts : (done ++ [ev]).any Event.upserts = done.any Event.upserts := by
    simp [Event.upserts, grant]
  have there := left.there
  have seats : org.subscription.map Subscription.seats = _ := congrArg Outcome.seats left.outcome
  refine ⟨?_, by rw [upserts, ← there]; simp, left.sites⟩
  rw [lastOf_concat, lastOf_concat, upserts, grant, count, Option.some_or, Option.none_or]
  cases row : org.subscription with
  | none =>
    rw [row, Option.isSome_none] at there
    simp [OrgBilling.outcome, OrgBilling.leftWith, ← there, Grant.tier]
  | some old =>
    rw [row, Option.isSome_some] at there
    simp only [row, OrgBilling.leftWith, ← there, Option.map_some, if_true] at seats
    simp [OrgBilling.outcome, OrgBilling.leftWith, ← there, Grant.tier, Grant.status, Subscription.cancel,
      seats, left.sites]

private theorem left_takeAll (fulfillable : ∀ ev ∈ events, ev.Fulfillable orgId) :
    Left start events (start.takeAll events) := by
  induction events using List.reverseRecOn with
  | nil => exact .nil start
  | append_singleton done ev ih =>
    have left := ih fun other mem => fulfillable other (List.mem_append_left _ mem)
    have mine := fulfillable ev (List.mem_append_right _ List.mem_cons_self)
    have taken : start.takeAll (done ++ [ev]) = (start.takeAll done).take ev := by
      simp [OrgBilling.takeAll]
    rw [taken]
    cases entitlement : ev.entitlement with
    | error error =>
      have same : (start.takeAll done).take ev = start.takeAll done := by
        simp only [OrgBilling.take, Event.applyTo, entitlement]
      rw [same]
      exact left.kept (by simp only [Event.grant, entitlement]) (by simp only [Event.seatCount, entitlement])
    | ok kind =>
      cases kind with
      | ignored =>
        have same : (start.takeAll done).take ev = start.takeAll done := by
          simp only [OrgBilling.take, Event.applyTo, entitlement]
        rw [same]
        exact left.kept (by simp only [Event.grant, entitlement]) (by simp only [Event.seatCount, entitlement])
      | upsert =>
        rw [upsert_taken mine entitlement]
        exact left.upsert entitlement
      | cancel =>
        rw [cancel_taken mine entitlement]
        exact left.cancel entitlement

/-- After a list of events: what the last grant and the last seat count leave. -/
theorem takeAll_outcome (start : OrgBilling) (fulfillable : ∀ ev ∈ events, ev.Fulfillable orgId) :
    (start.takeAll events).outcome =
      start.leftWith (lastOf Event.grant events) (lastOf Event.seatCount events) (events.any Event.upserts) :=
  (left_takeAll fulfillable).outcome

/-- The events in the order of their first attempts that do not fail. -/
def firstDeliveries (attempts : List (Event × Bool)) : List Event :=
  attempts.foldl (fun done attempt =>
    if attempt.2 = true ∨ attempt.1 ∈ done then done else done ++ [attempt.1]) []

/-- The events of one subscription, in their order; none of them is recorded yet. -/
structure History (billing : Billing) (orgId : Text) (events : List Event) : Prop where
  fulfillable : ∀ ev ∈ events, ev.Fulfillable orgId
  distinct : (events.map Event.id).Nodup
  fresh : ∀ ev ∈ events, ev.id ∉ billing.processed

/-- Every event is delivered, in any order, some more than once, some with failures. -/
structure Delivers (events : List Event) (attempts : List (Event × Bool)) : Prop where
  only : ∀ attempt ∈ attempts, attempt.1 ∈ events
  every : ∀ ev ∈ events, (ev, false) ∈ attempts

def inOrder (events : List Event) : List (Event × Bool) := events.map fun ev => (ev, false)

private theorem firstDeliveries_concat (attempts : List (Event × Bool)) (attempt : Event × Bool) :
    firstDeliveries (attempts ++ [attempt]) =
      if attempt.2 = true ∨ attempt.1 ∈ firstDeliveries attempts then firstDeliveries attempts
      else firstDeliveries attempts ++ [attempt.1] := by
  rw [firstDeliveries, List.foldl_append]
  rfl

theorem mem_firstDeliveries : ev ∈ firstDeliveries attempts ↔ (ev, false) ∈ attempts := by
  induction attempts using List.reverseRecOn with
  | nil => simp [firstDeliveries]
  | append_singleton attempts attempt ih =>
    obtain ⟨event, fails⟩ := attempt
    rw [firstDeliveries_concat, List.mem_append, List.mem_singleton]
    split
    · rename_i skipped
      rw [ih]
      refine ⟨.inl, fun mem => mem.elim id fun same => ?_⟩
      cases same
      exact ih.mp (skipped.resolve_left Bool.false_ne_true)
    · rename_i taken
      obtain rfl : fails = false := Bool.eq_false_iff.mpr (not_or.mp taken).1
      rw [List.mem_append, List.mem_singleton, ih, Prod.mk.injEq, and_iff_left rfl]

private theorem firstDeliveries_inOrder (distinct : (events.map Event.id).Nodup) :
    firstDeliveries (inOrder events) = events := by
  induction events using List.reverseRecOn with
  | nil => rfl
  | append_singleton done ev ih =>
    rw [List.map_append, List.nodup_append] at distinct
    have before := ih distinct.1
    have new : ev ∉ done := fun mem =>
      distinct.2.2 ev.id (List.mem_map_of_mem mem) ev.id (by simp) rfl
    rw [inOrder, List.map_append, List.map_singleton, firstDeliveries_concat, ← inOrder, before]
    simp [new]

/-- Whether a fulfillable event is refused does not depend on the org. -/
private theorem applyTo_total (fulfillable : ev.Fulfillable orgId) :
    (∀ org, ∃ error, ev.applyTo org = .error error) ∨ ∀ org, ev.applyTo org = .ok (org.take ev) := by
  have named : ev.data.orgId ≠ [] := fulfillable.org ▸ fulfillable.named
  cases entitlement : ev.entitlement with
  | error error => exact .inl fun org => ⟨error, by simp only [Event.applyTo, entitlement]⟩
  | ok kind =>
    refine .inr fun org => ?_
    cases kind with
    | ignored => simp only [OrgBilling.take, Event.applyTo, entitlement]
    | cancel => simp only [OrgBilling.take, Event.applyTo, entitlement, OrgBilling.setCanceled, if_neg named]
    | upsert =>
      have filled : org.unfulfillable ev.data = false := by
        simp [OrgBilling.unfulfillable, fulfillable.customer]
      have fits := fulfillable.seats
      simp only [OrgBilling.take, Event.applyTo, entitlement, OrgBilling.upsertSubscription, if_neg named, filled,
        Bool.false_eq_true, if_false, fits, if_true]

/-- What the attempts so far have done. -/
private structure Caught (billing : Billing) (orgId : Text) (done : List Event) (now : Billing) : Prop where
  org : now.orgs orgId = (billing.orgs orgId).takeAll done
  recorded : ∀ ev ∈ done, ev.id ∈ now.processed ∨ ∀ org, ∃ error, ev.applyTo org = .error error
  only : ∀ id ∈ now.processed, id ∈ billing.processed ∨ ∃ ev ∈ done, ev.id = id

private theorem Caught.again {now : Billing} (caught : Caught billing orgId done now) (mem : ev ∈ done) :
    now.deliver (ev, false) = now := by
  simp only [Billing.deliver, Billing.processEvent, Bool.false_eq_true, if_false]
  rcases caught.recorded ev mem with recorded | refused
  · rw [if_pos (List.contains_iff_mem.mpr recorded)]
  · split
    · rename_i same
      split at same
      · cases same
        rfl
      · obtain ⟨error, refused⟩ := refused (now.orgs ev.data.orgId)
        rw [refused] at same
        cases same
    · rfl

private theorem Caught.first {now : Billing} (caught : Caught billing orgId done now)
    (fulfillable : ev.Fulfillable orgId) (new : ev.id ∉ now.processed) :
    Caught billing orgId (done ++ [ev]) (now.deliver (ev, false)) := by
  have unrecorded : now.processed.contains ev.id = false := by simpa using new
  have taken : (billing.orgs orgId).takeAll (done ++ [ev]) = (now.orgs orgId).take ev := by
    rw [caught.org]
    simp [OrgBilling.takeAll]
  rcases applyTo_total fulfillable with refused | applied
  · obtain ⟨error, here⟩ := refused (now.orgs orgId)
    have same : now.deliver (ev, false) = now := by
      simp only [Billing.deliver, Billing.processEvent, Bool.false_eq_true, if_false, unrecorded,
        fulfillable.org, here]
    rw [same]
    refine ⟨?_, fun other mem => ?_, fun id mem => ?_⟩
    · rw [taken, OrgBilling.take, here]
    · rcases List.mem_append.mp mem with mem | mem
      · exact caught.recorded other mem
      · rw [List.mem_singleton.mp mem]
        exact .inr refused
    · exact (caught.only id mem).imp_right fun ⟨other, otherMem, same⟩ =>
        ⟨other, List.mem_append_left _ otherMem, same⟩
  · have same : now.deliver (ev, false) = ⟨ev.id :: now.processed,
        Function.update now.orgs orgId ((now.orgs orgId).take ev)⟩ := by
      simp only [Billing.deliver, Billing.processEvent, Bool.false_eq_true, if_false, unrecorded,
        fulfillable.org, applied (now.orgs orgId)]
    rw [same]
    refine ⟨?_, fun other mem => ?_, fun id mem => ?_⟩
    · rw [taken]
      exact Function.update_self ..
    · rcases List.mem_append.mp mem with mem | mem
      · exact (caught.recorded other mem).imp_left (List.mem_cons_of_mem _)
      · rw [List.mem_singleton.mp mem]
        exact .inl List.mem_cons_self
    · rcases List.mem_cons.mp mem with rfl | mem
      · exact .inr ⟨ev, List.mem_append_right _ List.mem_cons_self, rfl⟩
      · exact (caught.only id mem).imp_right fun ⟨other, otherMem, same⟩ =>
          ⟨other, List.mem_append_left _ otherMem, same⟩

private theorem caught_all (history : History billing orgId events)
    (only : ∀ attempt ∈ attempts, attempt.1 ∈ events) :
    Caught billing orgId (firstDeliveries attempts) (billing.deliverAll attempts) := by
  induction attempts using List.reverseRecOn with
  | nil => exact ⟨rfl, fun ev mem => absurd mem List.not_mem_nil, fun id mem => .inl mem⟩
  | append_singleton attempts attempt ih =>
    have caught := ih fun other mem => only other (List.mem_append_left _ mem)
    obtain ⟨ev, fails⟩ := attempt
    have known : ev ∈ events := only (ev, fails) (List.mem_append_right _ List.mem_cons_self)
    have last : billing.deliverAll (attempts ++ [(ev, fails)]) =
        (billing.deliverAll attempts).deliver (ev, fails) := by
      simp [Billing.deliverAll]
    rw [last, firstDeliveries_concat]
    cases fails with
    | true => simpa [Billing.deliver, Billing.processEvent] using caught
    | false =>
      by_cases before : ev ∈ firstDeliveries attempts
      · rw [if_pos (.inr before), caught.again before]
        exact caught
      · rw [if_neg (by simpa using before)]
        apply caught.first (history.fulfillable ev known)
        intro recorded
        rcases caught.only ev.id recorded with old | ⟨other, otherMem, same⟩
        · exact history.fresh ev known old
        · have otherKnown : other ∈ events :=
            only (other, false) (List.mem_append_left _ (mem_firstDeliveries.mp otherMem))
          rw [List.inj_on_of_nodup_map history.distinct otherKnown known same] at otherMem
          exact before otherMem

/-- Delivered in their order, the events are taken one after the other. -/
theorem deliverAll_inOrder (history : History billing orgId events) :
    (billing.deliverAll (inOrder events)).orgs orgId = (billing.orgs orgId).takeAll events := by
  have ordered : ∀ attempt ∈ inOrder events, attempt.1 ∈ events := by
    intro attempt mem
    obtain ⟨ev, known, rfl⟩ := List.mem_map.mp mem
    exact known
  rw [(caught_all history ordered).org, firstDeliveries_inOrder history.distinct]

theorem deliverAll_first (history : History billing orgId events) (delivers : Delivers events attempts) :
    (billing.deliverAll attempts).orgs orgId = (billing.orgs orgId).takeAll (firstDeliveries attempts) :=
  (caught_all history delivers.only).org

end Dropway.Cloud
