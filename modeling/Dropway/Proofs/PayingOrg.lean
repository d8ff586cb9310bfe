import Dropway.Proofs.EventOrder

/-! The mirror has one row for an org, so what ends one subscription takes away
what another one grants. -/

namespace Dropway.Cloud
open Lib

variable {start : OrgBilling} {orgId sub : Text} {ev : Event} {events before after : List Event}
  {billing : Billing}

/-- The event is about a subscription. -/
def Event.handled (ev : Event) : Bool :=
  match ev.type with
  | .other _ => false
  | _ => true

/-- The event has its subscription in an entitled status with a configured price. -/
def Event.pays (ev : Event) : Bool :=
  ev.handled && decide (ev.type ≠ .subscriptionDeleted) && isEntitledStatus ev.data.status &&
    !ev.data.unknownPrice && decide (ev.data.tier ≠ .free)

/-- The event leaves its org on Free. -/
def Event.withdraws (ev : Event) : Bool := ev.grant.any fun grant => decide (grant.tier = .free)

/-- The latest delivered event of a subscription. -/
def latest (sub : Text) (delivered : List Event) : Option Event :=
  lastOf (fun ev => if ev.handled ∧ ev.data.stripeSubscriptionId = sub then some ev else none) delivered

def Paying (sub : Text) (delivered : List Event) : Prop := ∃ ev, latest sub delivered = some ev ∧ ev.pays

/-- After every delivery the org is on Free only if none of its subscriptions pays. -/
def NeverFreeWhilePaid (billing : Billing) (orgId : Text) (events : List Event) : Prop :=
  ∀ before after, events = before ++ after →
    ((billing.deliverAll (inOrder before)).orgs orgId).planTier = .free → ∀ sub, ¬ Paying sub before

/-- What ends one subscription comes only while no other one pays. -/
def EndsAlone (events : List Event) : Prop :=
  ∀ before ev after, events = before ++ ev :: after → ev.withdraws →
    ∀ sub, sub ≠ ev.data.stripeSubscriptionId → ¬ Paying sub before

theorem History.initial (history : History billing orgId (before ++ after)) :
    History billing orgId before where
  fulfillable ev mem := history.fulfillable ev (List.mem_append_left _ mem)
  distinct := by
    have distinct := history.distinct
    rw [List.map_append, List.nodup_append] at distinct
    exact distinct.1
  fresh ev mem := history.fresh ev (List.mem_append_left _ mem)

private theorem planTier_delivered (history : History billing orgId events) :
    ((billing.deliverAll (inOrder events)).orgs orgId).planTier =
      ((lastOf Event.grant events).map Grant.tier).getD (billing.orgs orgId).planTier := by
  rw [deliverAll_inOrder history]
  exact congrArg Outcome.planTier (takeAll_outcome _ history.fulfillable)

private theorem latest_concat (sub : Text) (delivered : List Event) (ev : Event) :
    latest sub (delivered ++ [ev]) =
      if ev.handled ∧ ev.data.stripeSubscriptionId = sub then some ev else latest sub delivered := by
  unfold latest
  rw [lastOf_concat]
  split <;> rfl

private theorem handled_of_grant {grant : Grant} (granted : ev.grant = some grant) : ev.handled = true := by
  unfold Event.grant Event.entitlement at granted
  unfold Event.handled
  split
  · rename_i other
    rw [other] at granted
    cases granted
  · rfl

private theorem pays_iff_grant :
    ev.pays = true ↔ ∃ status, ev.grant = some (.upsert ev.data.tier status) ∧ ev.data.tier ≠ .free := by
  unfold Event.pays Event.handled Event.grant Event.entitlement
  cases type : ev.type with
  | other name => simp
  | subscriptionDeleted => simp
  | _ =>
    cases unknown : ev.data.unknownPrice with
    | true => simp
    | false =>
      cases entitled : isEntitledStatus ev.data.status with
      | true => simp
      | false => simp

/-- Where nothing is granted last, what paid before was ended by another one's event. -/
private theorem paying_withdrawn (paying : Paying sub events)
    (free : ∀ grant, lastOf Event.grant events = some grant → grant.tier = .free) :
    ∃ before ev after, events = before ++ ev :: after ∧ ev.withdraws = true ∧
      sub ≠ ev.data.stripeSubscriptionId ∧ Paying sub before := by
  induction events using List.reverseRecOn with
  | nil =>
    obtain ⟨ev, found, _⟩ := paying
    cases found
  | append_singleton done ev ih =>
    obtain ⟨last, found, pays⟩ := paying
    rw [latest_concat] at found
    rw [lastOf_concat] at free
    cases granted : ev.grant with
    | some grant =>
      have none := free grant (by rw [granted, Option.some_or])
      split at found
      · cases found
        obtain ⟨status, same, paid⟩ := pays_iff_grant.mp pays
        rw [granted, Option.some.injEq] at same
        rw [same] at none
        exact absurd none paid
      · rename_i other
        refine ⟨done, ev, [], rfl, by simp [Event.withdraws, granted, none], fun same => other ?_,
          last, found, pays⟩
        exact ⟨handled_of_grant granted, same.symm⟩
    | none =>
      split at found
      · cases found
        obtain ⟨status, same, _⟩ := pays_iff_grant.mp pays
        rw [granted] at same
        cases same
      · rw [granted, Option.none_or] at free
        obtain ⟨before, ended, after, rfl, withdraws, apart, paying⟩ := ih ⟨last, found, pays⟩ free
        exact ⟨before, ended, after ++ [ev], by simp, withdraws, apart, paying⟩

/-- A paying org is on Free after no delivery just where nothing that ends a
subscription comes while another one pays. -/
theorem never_free_iff (history : History billing orgId events) :
    NeverFreeWhilePaid billing orgId events ↔ EndsAlone events := by
  constructor
  · rintro never before ev after rfl withdraws sub apart ⟨last, found, pays⟩
    have delivered : History billing orgId (before ++ [ev]) := by
      rw [List.append_cons] at history
      exact history.initial
    refine never (before ++ [ev]) after (by simp) ?_ sub ⟨last, ?_, pays⟩
    · rw [planTier_delivered delivered, lastOf_concat]
      unfold Event.withdraws at withdraws
      cases granted : ev.grant with
      | none => simp [granted] at withdraws
      | some grant => simpa [granted] using withdraws
    · rw [latest_concat, if_neg fun here => apart here.2.symm]
      exact found
  · rintro alone before after rfl free sub paying
    rw [planTier_delivered history.initial] at free
    obtain ⟨earlier, ev, later, rfl, withdraws, apart, paid⟩ := paying_withdrawn paying fun grant last => by
      simpa [last] using free
    exact alone earlier ev (later ++ after) (by simp) withdraws sub apart paid

/-! An org upgrades by a second checkout, and its first subscription is deleted. -/

def businessCreated : Event :=
  ⟨['3'], .subscriptionCreated, { proData with stripeSubscriptionId := ['t'], planTier := some .business }⟩

def upgrade : List Event := [proCreated, businessCreated, proDeleted]

theorem upgrade_history : History freeBilling ['o'] upgrade where
  fulfillable ev mem := by
    rcases List.mem_cons.mp mem with rfl | mem
    · exact pro_history.fulfillable proCreated List.mem_cons_self
    · rcases List.mem_cons.mp mem with rfl | mem
      · exact ⟨rfl, List.cons_ne_nil _ _, List.cons_ne_nil _ _, rfl⟩
      · rw [List.mem_singleton.mp mem]
        exact pro_history.fulfillable proDeleted (List.mem_cons_of_mem _ List.mem_cons_self)
  distinct := by simp [upgrade, proCreated, businessCreated, proDeleted]
  fresh ev mem := List.not_mem_nil

theorem upgraded_on_free : History freeBilling ['o'] upgrade ∧
    ¬ NeverFreeWhilePaid freeBilling ['o'] upgrade := by
  refine ⟨upgrade_history, fun never => ?_⟩
  exact never upgrade [] rfl rfl ['t'] ⟨businessCreated, rfl, rfl⟩

theorem upgrade_decided : NeverFreeWhilePaid freeBilling ['o'] upgrade ↔ EndsAlone upgrade :=
  never_free_iff upgrade_history

/-! What an event says of the Stripe subscription that it is about. -/

/-- The plan's price is one of the configured ones. -/
def PriceMap.configures (prices : PriceMap) (sub : StripeSubscription) : Bool :=
  (planItem prices sub.items).any fun item =>
    decide (item.priceId ≠ []) && (prices.tierForChecked item.priceId).2

/-- A live subscription pays just where its status is entitled and its price configured. -/
theorem subscription_pays_iff {prices : PriceMap} {sub : StripeSubscription} {data : EventData}
    (resolved : fromSubscription prices sub = some data) (id : Text) :
    (Event.mk id .subscriptionUpdated data).pays = true ↔
      isEntitledStatus sub.status = true ∧ prices.configures sub = true := by
  simp only [fromSubscription, Option.ite_none_left_eq_some] at resolved
  obtain ⟨_, resolved⟩ := resolved
  split at resolved
  · rename_i bare
    cases resolved
    simp [Event.pays, Event.handled, EventData.tier, PriceMap.configures, bare]
  · rename_i item found
    cases resolved
    have paid := tierForChecked_paid prices item.priceId
    simp only [Event.pays, Event.handled, EventData.tier, PriceMap.configures, found, Option.any_some,
      Option.getD_some, Bool.and_eq_true, Bool.not_not, decide_eq_true_eq, Bool.true_and, ne_eq,
      reduceCtorEq, not_false_eq_true, true_and, and_assoc]
    exact and_congr_right fun _ => (and_congr_right fun _ => decide_eq_true_iff).trans paid

end Dropway.Cloud
