import Dropway.Cloud.Stripe
import Mathlib.Logic.Function.Basic

/-! The subscription mirror and its webhook (cloud/billing/store.go, billing.go),
one transaction at a time. -/

namespace Dropway.Cloud
open Lib

inductive SubscriptionStatus where
  | active
  | trialing
  | pastDue
  | canceled
  | incomplete
  deriving DecidableEq

inductive OrgStatus where
  | active
  | overLimit
  | pastDue
  | suspended
  deriving DecidableEq

/-- A row of `billing.subscriptions`. -/
structure Subscription where
  stripeCustomerId : Text
  stripeSubscriptionId : Option Text
  planTier : PlanTier
  seats : Int
  status : SubscriptionStatus
  cancelAtPeriodEnd : Bool
  currentPeriodStart : Option Int
  currentPeriodEnd : Option Int
  orgStatus : OrgStatus
  deriving DecidableEq

/-- What is stored of one org: its `app.org_meta.plan_tier`, the number of its
rows in `app.sites`, and its row of the mirror. -/
structure OrgBilling where
  planTier : PlanTier
  sites : Nat
  subscription : Option Subscription
  deriving DecidableEq

structure Billing where
  processed : List Text
  orgs : Text → OrgBilling

inductive BillingError where
  | emptyOrgID
  | unknownPrice
  | unfulfillableEvent
  | db
  deriving DecidableEq

def isEntitledStatus (status : Text) : Bool :=
  decide (status = "active".toList) || decide (status = "trialing".toList) ||
    decide (status = "past_due".toList)

def normalizeStatus (status : Text) : SubscriptionStatus :=
  if status = "active".toList ∨ status = [] then .active
  else if status = "trialing".toList then .trialing
  else if status = "past_due".toList then .pastDue
  else if status = "canceled".toList then .canceled
  else if status = "incomplete".toList then .incomplete
  else .pastDue

/-- `none` where the tier is not capped. -/
def siteCapForTier : PlanTier → Option Nat
  | .free => some 10
  | .pro => some 100
  | .business | .enterprise => none

def orgExceedsCapsForTier (sites : Nat) (tier : PlanTier) : Bool :=
  (siteCapForTier tier).any fun limit => decide (limit < sites)

def orgStatusFor (sites : Nat) (tier : PlanTier) : OrgStatus :=
  if orgExceedsCapsForTier sites tier then .overLimit else .active

def nullIf (text : Text) : Option Text := if text = [] then none else some text

def periodEnd (unix : Int) : Option Int := if unix ≤ 0 then none else some unix

/-- The column is an int4. -/
def fitsSeats (seats : Int) : Bool := decide (-2147483648 ≤ seats ∧ seats ≤ 2147483647)

def EventData.tier (d : EventData) : PlanTier := d.planTier.getD .free

/-- The row that an event inserts, or what it makes of the row that is there. -/
def EventData.merge (d : EventData) (orgStatus : OrgStatus) : Option Subscription → Subscription
  | none =>
    { stripeCustomerId := d.stripeCustomerId
      stripeSubscriptionId := nullIf d.stripeSubscriptionId
      planTier := d.tier
      seats := d.seats
      status := normalizeStatus d.status
      cancelAtPeriodEnd := d.cancelAtPeriodEnd
      currentPeriodStart := periodEnd d.currentPeriodStart
      currentPeriodEnd := periodEnd d.currentPeriodEnd
      orgStatus }
  | some old =>
    { stripeCustomerId := (nullIf d.stripeCustomerId).getD old.stripeCustomerId
      stripeSubscriptionId := (nullIf d.stripeSubscriptionId).or old.stripeSubscriptionId
      planTier := d.tier
      seats := if d.seats = 0 then old.seats else d.seats
      status := normalizeStatus d.status
      cancelAtPeriodEnd := d.cancelAtPeriodEnd
      currentPeriodStart := (periodEnd d.currentPeriodStart).or old.currentPeriodStart
      currentPeriodEnd := (periodEnd d.currentPeriodEnd).or old.currentPeriodEnd
      orgStatus }

/-- There is neither a customer on the event nor one in the row. -/
def OrgBilling.unfulfillable (org : OrgBilling) (d : EventData) : Bool :=
  decide (d.stripeCustomerId = []) && decide ((org.subscription.map Subscription.stripeCustomerId).getD [] = [])

def OrgBilling.upsertSubscription (org : OrgBilling) (d : EventData) : Except BillingError OrgBilling :=
  if d.orgId = [] then .error .emptyOrgID
  else if org.unfulfillable d then .error .unfulfillableEvent
  else if fitsSeats d.seats then
    .ok { org with
      planTier := d.tier
      subscription := some (d.merge (orgStatusFor org.sites d.tier) org.subscription) }
  else .error .db

def Subscription.cancel (row : Subscription) (orgStatus : OrgStatus) : Subscription :=
  { row with planTier := .free, status := .canceled, cancelAtPeriodEnd := false, orgStatus }

def OrgBilling.setCanceled (org : OrgBilling) (orgId : Text) : Except BillingError OrgBilling :=
  if orgId = [] then .error .emptyOrgID
  else .ok { org with
    planTier := .free
    subscription := org.subscription.map fun row => row.cancel (orgStatusFor org.sites .free) }

/-- What an event comes to, once its price is recognized. -/
inductive Entitlement where
  | upsert
  | cancel
  | ignored
  deriving DecidableEq

/-- The dispatch of applyEvent. -/
def Event.entitlement (ev : Event) : Except BillingError Entitlement :=
  match ev.type with
  | .checkoutSessionCompleted | .subscriptionCreated | .subscriptionUpdated =>
    if ev.data.unknownPrice then .error .unknownPrice
    else if isEntitledStatus ev.data.status then .ok .upsert
    else .ok .cancel
  | .subscriptionDeleted => .ok .cancel
  | .other _ => .ok .ignored

def Event.applyTo (ev : Event) (org : OrgBilling) : Except BillingError OrgBilling :=
  match ev.entitlement with
  | .error error => .error error
  | .ok .upsert => org.upsertSubscription ev.data
  | .ok .cancel => org.setCanceled ev.data.orgId
  | .ok .ignored => .ok org

/-- `fails` where the database or the connection does; `applied` is false for a replay. -/
def Billing.processEvent (billing : Billing) (ev : Event) (fails : Bool) :
    Except BillingError (Billing × Bool) :=
  if fails then .error .db
  else if billing.processed.contains ev.id then .ok (billing, false)
  else match ev.applyTo (billing.orgs ev.data.orgId) with
    | .error error => .error error
    | .ok org => .ok (⟨ev.id :: billing.processed, Function.update billing.orgs ev.data.orgId org⟩, true)

/-- An error rolls the transaction back. -/
def Billing.deliver (billing : Billing) (attempt : Event × Bool) : Billing :=
  match billing.processEvent attempt.1 attempt.2 with
  | .ok (billing, _) => billing
  | .error _ => billing

def Billing.deliverAll (billing : Billing) (attempts : List (Event × Bool)) : Billing :=
  attempts.foldl Billing.deliver billing

end Dropway.Cloud
