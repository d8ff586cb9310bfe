import Dropway.Edge.Route

/-! What a verified webhook hands to the billing store (cloud/billing/stripe.go). -/

namespace Dropway.Cloud
open Lib

inductive PlanTier where
  | free
  | pro
  | business
  | enterprise
  deriving DecidableEq

inductive EventType where
  | checkoutSessionCompleted
  | subscriptionCreated
  | subscriptionUpdated
  | subscriptionDeleted
  | other (name : Text)
  deriving DecidableEq

/-- A blank tier is `none`. -/
structure EventData where
  orgId : Text
  stripeCustomerId : Text
  stripeSubscriptionId : Text
  planTier : Option PlanTier
  seats : Int
  status : Text
  currentPeriodStart : Int
  currentPeriodEnd : Int
  cancelAtPeriodEnd : Bool
  unknownPrice : Bool
  deriving DecidableEq

def EventData.empty : EventData := ⟨[], [], [], none, 0, [], 0, 0, false, false⟩

structure Event where
  id : Text
  type : EventType
  data : EventData
  deriving DecidableEq

/-- The configured price ids; any of them may be blank. -/
structure PriceMap where
  pro : Text
  business : Text
  enterprise : Text

/-- The tier of a price, and whether the price is recognized. -/
def PriceMap.tierForChecked (prices : PriceMap) (priceId : Text) : PlanTier × Bool :=
  if priceId = [] then (.free, true)
  else if priceId = prices.enterprise ∧ prices.enterprise ≠ [] then (.enterprise, true)
  else if priceId = prices.business ∧ prices.business ≠ [] then (.business, true)
  else if priceId = prices.pro ∧ prices.pro ≠ [] then (.pro, true)
  else (.free, false)

theorem tierForChecked_paid (prices : PriceMap) (priceId : Text) :
    ((prices.tierForChecked priceId).2 = true ∧ (prices.tierForChecked priceId).1 ≠ .free) ↔
      priceId ≠ [] ∧ (prices.tierForChecked priceId).2 = true := by
  unfold PriceMap.tierForChecked
  by_cases blank : priceId = []
  · simp [blank]
  · simp only [if_neg blank]
    split
    · simp [blank]
    · split
      · simp [blank]
      · split
        · simp [blank]
        · simp

def targetTier (name : Text) : Option PlanTier :=
  if name = "pro".toList then some .pro
  else if name = "business".toList then some .business
  else if name = "enterprise".toList then some .enterprise
  else none

def metadataValue (metadata : List (Text × Text)) (key : Text) : Text :=
  ((metadata.find? fun entry => entry.1 = key).map Prod.snd).getD []

def resolveOrgID (clientReferenceId : Text) (metadata : List (Text × Text)) : Text :=
  if clientReferenceId ≠ [] then clientReferenceId else metadataValue metadata "org_id".toList

structure CheckoutSession where
  clientReferenceId : Text
  customer : Text
  subscription : Text
  metadata : List (Text × Text)

structure LineItem where
  quantity : Int
  priceId : Text
  currentPeriodStart : Int
  currentPeriodEnd : Int

structure StripeSubscription where
  id : Text
  customer : Text
  status : Text
  cancelAtPeriodEnd : Bool
  currentPeriodStart : Int
  currentPeriodEnd : Int
  metadata : List (Text × Text)
  items : List LineItem

def fromCheckoutSession (session : CheckoutSession) : Option EventData :=
  let orgId := resolveOrgID session.clientReferenceId session.metadata
  if orgId = [] then none
  else some { EventData.empty with
    orgId
    stripeCustomerId := session.customer
    stripeSubscriptionId := session.subscription
    status := "active".toList
    planTier := some ((targetTier (metadataValue session.metadata "target_tier".toList)).getD .free) }

/-- The plan's item: the first one with a recognized price, else the first. -/
def planItem (prices : PriceMap) (items : List LineItem) : Option LineItem :=
  (items.find? fun item => (prices.tierForChecked item.priceId).2).or items.head?

def orElse (value other : Int) : Int := if value = 0 then other else value

def fromSubscription (prices : PriceMap) (sub : StripeSubscription) : Option EventData :=
  let orgId := resolveOrgID [] sub.metadata
  let base : EventData := {
    orgId
    stripeCustomerId := sub.customer
    stripeSubscriptionId := sub.id
    planTier := some .free
    seats := 0
    status := sub.status
    currentPeriodStart := sub.currentPeriodStart
    currentPeriodEnd := sub.currentPeriodEnd
    cancelAtPeriodEnd := sub.cancelAtPeriodEnd
    unknownPrice := false }
  if orgId = [] then none
  else match planItem prices sub.items with
    | none => some base
    | some item => some { base with
        seats := item.quantity
        planTier := some (prices.tierForChecked item.priceId).1
        unknownPrice := !(prices.tierForChecked item.priceId).2
        currentPeriodStart := orElse sub.currentPeriodStart item.currentPeriodStart
        currentPeriodEnd := orElse sub.currentPeriodEnd item.currentPeriodEnd }

/-- The object that an event is about. -/
inductive StripeObject where
  | checkoutSession (session : CheckoutSession)
  | subscription (sub : StripeSubscription)

/-- A verified payload; `none` where an event of a handled type names no org. -/
def resolveData (prices : PriceMap) : EventType → StripeObject → Option EventData
  | .checkoutSessionCompleted, .checkoutSession session => fromCheckoutSession session
  | .subscriptionCreated, .subscription sub => fromSubscription prices sub
  | .subscriptionUpdated, .subscription sub => fromSubscription prices sub
  | .subscriptionDeleted, .subscription sub => fromSubscription prices sub
  | _, _ => some .empty

end Dropway.Cloud
