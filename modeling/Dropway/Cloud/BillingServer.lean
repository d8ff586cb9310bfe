import Dropway.Cloud.Billing
import Dropway.Lib.Server

/-! ProcessEvent and SaveCustomerID, statement by statement (cloud/billing/store.go). -/

namespace Dropway.Cloud
open Lib

inductive BillingChange where
  | processedEvent (id : Text)
  | subscription (d : EventData) (orgStatus : OrgStatus)
  | canceled (orgId : Text) (orgStatus : OrgStatus)
  | customer (orgId customerId : Text)
  | planTier (orgId : Text) (tier : PlanTier)

/-- The row of an org whose customer is known before it subscribes. -/
def Subscription.ofCustomer (customerId : Text) : Subscription where
  stripeCustomerId := customerId
  stripeSubscriptionId := none
  planTier := .free
  seats := 0
  status := .active
  cancelAtPeriodEnd := false
  currentPeriodStart := none
  currentPeriodEnd := none
  orgStatus := .active

def Billing.change (billing : Billing) (orgId : Text) (change : OrgBilling → OrgBilling) : Billing :=
  { billing with orgs := Function.update billing.orgs orgId (change (billing.orgs orgId)) }

def BillingChange.apply (billing : Billing) : BillingChange → Billing
  | .processedEvent id => { billing with processed := id :: billing.processed }
  | .subscription d orgStatus => billing.change d.orgId fun org =>
      { org with subscription := some (d.merge orgStatus org.subscription) }
  | .canceled orgId orgStatus => billing.change orgId fun org =>
      { org with subscription := org.subscription.map fun row => row.cancel orgStatus }
  | .customer orgId customerId => billing.change orgId fun org =>
      { org with subscription := some ((org.subscription.map fun row =>
          { row with stripeCustomerId := customerId }).getD (.ofCustomer customerId)) }
  | .planTier orgId tier => billing.change orgId fun org => { org with planTier := tier }

inductive BillingLock where
  | processedEvent (id : Text)
  | subscription (orgId : Text)
  | orgMeta (orgId : Text)
  deriving DecidableEq

def BillingChange.locks : BillingChange → List BillingLock
  | .processedEvent id => [.processedEvent id]
  | .subscription d _ => [.subscription d.orgId]
  | .canceled orgId _ => [.subscription orgId]
  | .customer orgId _ => [.subscription orgId]
  | .planTier orgId _ => [.orgMeta orgId]

inductive Processing where
  | markProcessed (ev : Event)
  | applyEvent (ev : Event)
  | readPlanTier (ev : Event) (upserts : Bool)
  | probeCustomer (ev : Event)
  | countSites (ev : Event) (upserts : Bool)
  | upsertSubscription (ev : Event) (orgStatus : OrgStatus)
  | cancelSubscription (ev : Event) (orgStatus : OrgStatus)
  | updateOrgMeta (orgId : Text) (tier : PlanTier)
  | commit (orgId : Text) (tier : PlanTier)
  /-- Of a replay, or of an event that grants nothing. -/
  | commitLedger
  | saveCustomerID (orgId customerId : Text)
  | commitCustomer
  | done
  | failed

/-- `fails` where the database or the connection does. -/
def Processing.next (fails : Bool) (position : Processing) (billing : Billing) :
    Option (Effect BillingChange BillingLock × Processing) :=
  match position with
  | .done => none
  | .failed => none
  | .applyEvent ev =>
    match ev.entitlement with
    | .error _ => some (.rollback, .failed)
    | .ok .ignored => some (.read [], .commitLedger)
    | .ok .upsert =>
      if ev.data.orgId = [] then some (.rollback, .failed) else some (.read [], .readPlanTier ev true)
    | .ok .cancel =>
      if ev.data.orgId = [] then some (.rollback, .failed) else some (.read [], .readPlanTier ev false)
  | .markProcessed ev =>
    if fails then some (.rollback, .failed)
    else if billing.processed.contains ev.id then some (.read [.processedEvent ev.id], .commitLedger)
    else some (.write (.processedEvent ev.id), .applyEvent ev)
  | .readPlanTier ev upserts =>
    if fails then some (.rollback, .failed)
    else some (.read [], if upserts then .probeCustomer ev else .countSites ev false)
  | .probeCustomer ev =>
    if fails ∨ (billing.orgs ev.data.orgId).unfulfillable ev.data then some (.rollback, .failed)
    else some (.read [], .countSites ev true)
  | .countSites ev upserts =>
    if fails then some (.rollback, .failed)
    else
      let sites := (billing.orgs ev.data.orgId).sites
      some (.read [], if upserts then .upsertSubscription ev (orgStatusFor sites ev.data.tier)
        else .cancelSubscription ev (orgStatusFor sites .free))
  | .upsertSubscription ev orgStatus =>
    if fails ∨ !fitsSeats ev.data.seats then some (.rollback, .failed)
    else some (.write (.subscription ev.data orgStatus), .updateOrgMeta ev.data.orgId ev.data.tier)
  | .cancelSubscription ev orgStatus =>
    if fails then some (.rollback, .failed)
    -- An UPDATE that matches no row locks none.
    else if (billing.orgs ev.data.orgId).subscription = none then
      some (.read [], .updateOrgMeta ev.data.orgId .free)
    else some (.write (.canceled ev.data.orgId orgStatus), .updateOrgMeta ev.data.orgId .free)
  | .updateOrgMeta orgId tier =>
    if fails then some (.rollback, .failed) else some (.write (.planTier orgId tier), .commit orgId tier)
  | .commit _ _ => if fails then some (.rollback, .failed) else some (.commit, .done)
  | .commitLedger => if fails then some (.rollback, .failed) else some (.commit, .done)
  | .saveCustomerID orgId customerId =>
    if fails ∨ orgId = [] ∨ customerId = [] then some (.rollback, .failed)
    else some (.write (.customer orgId customerId), .commitCustomer)
  | .commitCustomer => if fails then some (.rollback, .failed) else some (.commit, .done)

inductive Processing.Starts : Processing → Prop
  | processEvent (ev : Event) : Starts (.markProcessed ev)
  | saveCustomerID (orgId customerId : Text) : Starts (.saveCustomerID orgId customerId)

instance : DecidablePred Processing.Starts := fun position => by
  cases position with
  | markProcessed ev => exact .isTrue (.processEvent ev)
  | saveCustomerID orgId customerId => exact .isTrue (.saveCustomerID orgId customerId)
  | _ => exact .isFalse fun starts => nomatch starts

def billingServer : Server Bool Billing BillingChange BillingLock Processing where
  admits := Processing.Starts
  next fails position billing := position.next fails billing
  apply change billing := change.apply billing
  locks := BillingChange.locks

/-- Alone, the statements come to what the delivery of the event does. -/
theorem solo_deliver (billing : Billing) (ev : Event) :
    (billingServer.solo (fun _ => false) (billing, ⟨.markProcessed ev, []⟩) 8).1 =
      billing.deliver (ev, false) := by
  by_cases replay : ev.id ∈ billing.processed
  · simp [Server.solo, billingServer, Server.view, Server.store, Server.pending, Processing.next,
      Billing.deliver, Billing.processEvent, replay]
  · cases what : ev.entitlement with
    | error =>
      simp [Server.solo, billingServer, Server.view, Server.store, Server.pending, Processing.next,
        BillingChange.apply, Billing.deliver, Billing.processEvent, Event.applyTo, replay, what]
    | ok entitlement =>
      cases entitlement with
      | ignored =>
        simp [Server.solo, billingServer, Server.view, Server.store, Server.pending, Processing.next,
          BillingChange.apply, Billing.deliver, Billing.processEvent, Event.applyTo, replay, what]
      | cancel =>
        by_cases named : ev.data.orgId = []
        · simp [Server.solo, billingServer, Server.view, Server.store, Server.pending, Processing.next,
            BillingChange.apply, Billing.deliver, Billing.processEvent, Event.applyTo,
            OrgBilling.setCanceled, replay, what, named]
        · cases row : (billing.orgs ev.data.orgId).subscription <;>
            simp [Server.solo, billingServer, Server.view, Server.store, Server.pending, Processing.next,
              BillingChange.apply, Billing.change, Billing.deliver, Billing.processEvent, Event.applyTo,
              OrgBilling.setCanceled, replay, what, named, row]
      | upsert =>
        by_cases named : ev.data.orgId = []
        · simp [Server.solo, billingServer, Server.view, Server.store, Server.pending, Processing.next,
            BillingChange.apply, Billing.deliver, Billing.processEvent, Event.applyTo,
            OrgBilling.upsertSubscription, replay, what, named]
        · cases unknown : (billing.orgs ev.data.orgId).unfulfillable ev.data <;>
            cases fits : fitsSeats ev.data.seats <;>
            simp [Server.solo, billingServer, Server.view, Server.store, Server.pending, Processing.next,
              BillingChange.apply, Billing.change, Billing.deliver, Billing.processEvent, Event.applyTo,
              OrgBilling.upsertSubscription, replay, what, named, unknown, fits]

end Dropway.Cloud
