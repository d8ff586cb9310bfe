import Dropway.Cloud.Billing
import Mathlib.Data.List.TakeWhile

/-! Which of a subscription's line items decides its tier. The search for the plan's item
takes a blank price for a known one, so it can stop in front of the plan. -/

namespace Dropway.Cloud
open Lib

/-- The item carries one of the configured prices. -/
def PriceMap.planned (prices : PriceMap) (item : LineItem) : Bool :=
  decide (item.priceId ≠ []) &&
    [prices.enterprise, prices.business, prices.pro].contains item.priceId

def EventType.grants : EventType → Bool
  | .checkoutSessionCompleted | .subscriptionCreated | .subscriptionUpdated => true
  | _ => false

/-- No price that is not recognized makes a paying organisation free. -/
structure NeverDowngrades (prices : PriceMap) (items : List LineItem) (data : EventData) : Prop where
  plan : ∀ item, items.find? prices.planned = some item →
    data.planTier = some (prices.tierForChecked item.priceId).1 ∧ data.seats = item.quantity
  refused : (∀ item ∈ items, prices.planned item = false) → (∃ item ∈ items, item.priceId ≠ []) →
    data.unknownPrice = true ∧ ∀ (ev : Event) (org : OrgBilling), ev.data = data →
      ev.type.grants = true → ev.applyTo org = .error .unknownPrice
  free : data.planTier = some .free → data.unknownPrice = false → ∀ item ∈ items, item.priceId = []

variable {prices : PriceMap} {items : List LineItem}

def PriceMap.known (prices : PriceMap) (item : LineItem) : Bool :=
  (prices.tierForChecked item.priceId).2

private theorem planned_known (item : LineItem) :
    prices.planned item = true ↔ item.priceId ≠ [] ∧ prices.known item = true := by
  unfold PriceMap.planned PriceMap.known PriceMap.tierForChecked
  simp only [Bool.and_eq_true, decide_eq_true_eq, List.contains_eq_mem, List.mem_cons,
    List.not_mem_nil, or_false]
  refine and_congr_right fun filled => ?_
  rw [if_neg filled]
  constructor
  · intro listed
    split
    · rfl
    split
    · rfl
    split
    · rfl
    · rename_i enterprise business pro
      rcases listed with same | same | same
      · exact absurd ⟨same, same ▸ filled⟩ enterprise
      · exact absurd ⟨same, same ▸ filled⟩ business
      · exact absurd ⟨same, same ▸ filled⟩ pro
  · intro known
    split at known
    · rename_i enterprise
      exact Or.inl enterprise.1
    split at known
    · rename_i business
      exact Or.inr (Or.inl business.1)
    split at known
    · rename_i pro
      exact Or.inr (Or.inr pro.1)
    · cases known

private theorem blank_known {item : LineItem} (blank : item.priceId = []) :
    prices.tierForChecked item.priceId = (.free, true) := by
  rw [PriceMap.tierForChecked, if_pos blank]

private theorem planned_tier {item : LineItem} (planned : prices.planned item = true) :
    prices.known item = true ∧ (prices.tierForChecked item.priceId).1 ≠ .free :=
  (tierForChecked_paid prices item.priceId).mpr ((planned_known item).mp planned)

private theorem unknown_of {item : LineItem} (filled : item.priceId ≠ [])
    (unplanned : prices.planned item = false) : prices.known item = false := by
  rw [Bool.eq_false_iff] at unplanned ⊢
  exact fun known => unplanned ((planned_known item).mpr ⟨filled, known⟩)

/-- The items in front of the first one with a configured price. -/
def PriceMap.front (prices : PriceMap) (items : List LineItem) : List LineItem :=
  items.takeWhile fun item => !prices.planned item

private theorem find_known (prices : PriceMap) (items : List LineItem) :
    (items.find? prices.known = items.find? prices.planned ∧
        ∀ item ∈ prices.front items, item.priceId ≠ []) ∨
      ∃ item, items.find? prices.known = some item ∧
        item.priceId = [] ∧ item ∈ prices.front items := by
  induction items with
  | nil => exact Or.inl ⟨rfl, fun _ mem => absurd mem List.not_mem_nil⟩
  | cons first rest ih =>
    rcases Bool.eq_false_or_eq_true (prices.planned first) with planned | unplanned
    · refine Or.inl ⟨?_, ?_⟩
      · rw [List.find?_cons_of_pos (planned_tier planned).1, List.find?_cons_of_pos planned]
      · simp [PriceMap.front, planned]
    · have front : prices.front (first :: rest) = first :: prices.front rest := by
        simp [PriceMap.front, unplanned]
      rw [front]
      by_cases blank : first.priceId = []
      · refine Or.inr ⟨first, ?_, blank, List.mem_cons_self ..⟩
        rw [List.find?_cons_of_pos (by rw [PriceMap.known, blank_known blank])]
      · have skipped := unknown_of blank unplanned
        rw [List.find?_cons_of_neg (by simp [skipped]), List.find?_cons_of_neg (by simp [unplanned])]
        rcases ih with ⟨same, filled⟩ | ⟨item, found, none, mem⟩
        · refine Or.inl ⟨same, fun item mem => ?_⟩
          rcases List.mem_cons.mp mem with rfl | later
          · exact blank
          · exact filled item later
        · exact Or.inr ⟨item, found, none, List.mem_cons_of_mem _ mem⟩

private theorem planItem_eq (items : List LineItem) :
    planItem prices items = (items.find? prices.known).or items.head? := rfl

private theorem refuses {ev : Event} {org : OrgBilling} (flagged : ev.data.unknownPrice = true)
    (grants : ev.type.grants = true) : ev.applyTo org = .error .unknownPrice := by
  have refused : ev.entitlement = .error .unknownPrice := by
    unfold Event.entitlement
    cases type : ev.type <;> rw [type] at grants
    case checkoutSessionCompleted => exact if_pos flagged
    case subscriptionCreated => exact if_pos flagged
    case subscriptionUpdated => exact if_pos flagged
    all_goals cases grants
  rw [Event.applyTo, refused]

/-- What the plan's item told. -/
private structure Says (prices : PriceMap) (item : Option LineItem) (data : EventData) : Prop where
  tier : data.planTier = some ((item.map fun item => (prices.tierForChecked item.priceId).1).getD .free)
  seats : ∀ found, item = some found → data.seats = found.quantity
  flag : data.unknownPrice = item.any fun item => !prices.known item

private theorem fromSubscription_says {sub : StripeSubscription} {data : EventData}
    (resolved : fromSubscription prices sub = some data) :
    Says prices (planItem prices sub.items) data := by
  simp only [fromSubscription, Option.ite_none_left_eq_some] at resolved
  obtain ⟨_, resolved⟩ := resolved
  cases found : planItem prices sub.items with
  | none =>
    rw [found] at resolved
    cases resolved
    exact ⟨rfl, fun _ same => (by cases same), rfl⟩
  | some item =>
    rw [found] at resolved
    cases resolved
    refine ⟨rfl, fun _ same => ?_, rfl⟩
    cases same
    rfl

private theorem planned_never {data : EventData} {item : LineItem}
    (first : items.find? prices.planned = some item) (told : Says prices (some item) data) :
    NeverDowngrades prices items data where
  plan other found := by
    obtain rfl := Option.some.inj (first.symm.trans found)
    exact ⟨told.tier, told.seats item rfl⟩
  refused none _ := by
    have planned := List.find?_some first
    rw [none item (List.mem_of_find?_eq_some first)] at planned
    cases planned
  free tier _ := by
    have paid := (planned_tier (List.find?_some first)).2
    exact absurd (Option.some.inj (told.tier.symm.trans tier)) paid

private theorem unplanned_never {data : EventData}
    (unplanned : ∀ item ∈ items, prices.planned item = false) (filled : ∀ item ∈ items, item.priceId ≠ [])
    (told : Says prices items.head? data) : NeverDowngrades prices items data := by
  have flagged (some : ∃ item, item ∈ items) : data.unknownPrice = true := by
    cases items with
    | nil => exact absurd some.choose_spec List.not_mem_nil
    | cons first rest =>
      have unknown := unknown_of (filled first (List.mem_cons_self ..)) (unplanned first (List.mem_cons_self ..))
      rw [told.flag]
      simp [unknown]
  refine ⟨fun item found => ?_, fun _ some => ?_, fun _ free item mem => ?_⟩
  · have planned := List.find?_some found
    rw [unplanned item (List.mem_of_find?_eq_some found)] at planned
    cases planned
  · have flag := flagged (some.imp fun item given => given.1)
    refine ⟨flag, fun ev org same grants => refuses ?_ grants⟩
    rw [same, flag]
  · rw [flagged ⟨item, mem⟩] at free
    cases free

private theorem blank_never_iff {data : EventData} {item : LineItem} (blank : item.priceId = [])
    (told : Says prices (some item) data) :
    NeverDowngrades prices items data ↔ ∀ item ∈ items, item.priceId = [] := by
  have flag : data.unknownPrice = false := by
    rw [told.flag]
    simp [PriceMap.known, blank_known blank]
  constructor
  · intro never
    refine never.free ?_ flag
    rw [told.tier]
    simp [blank_known blank]
  · intro blanks
    refine ⟨fun other found => ?_, fun _ some => ?_, fun _ _ => blanks⟩
    · have planned := (planned_known other).mp (List.find?_some found)
      exact absurd (blanks other (List.mem_of_find?_eq_some found)) planned.1
    · obtain ⟨other, mem, filled⟩ := some
      exact absurd (blanks other mem) filled

/-- A blank price in front of the plan's is harmless only where every price is blank. -/
theorem never_downgrades_iff {sub : StripeSubscription} {data : EventData}
    (resolved : fromSubscription prices sub = some data) :
    NeverDowngrades prices sub.items data ↔
      ((∃ item ∈ prices.front sub.items, item.priceId = []) →
        ∀ item ∈ sub.items, item.priceId = []) := by
  have told := fromSubscription_says resolved
  rw [planItem_eq] at told
  rcases find_known prices sub.items with ⟨same, filled⟩ | ⟨item, found, blank, mem⟩
  · have vacuous : (∃ item ∈ prices.front sub.items, item.priceId = []) →
        ∀ item ∈ sub.items, item.priceId = [] := by
      intro ⟨item, mem, blank⟩
      exact absurd blank (filled item mem)
    refine iff_of_true ?_ vacuous
    rw [same] at told
    cases first : sub.items.find? prices.planned with
    | some item =>
      rw [first] at told
      exact planned_never first told
    | none =>
      have unplanned : ∀ item ∈ sub.items, prices.planned item = false := by
        intro item mem
        exact Bool.eq_false_iff.mpr (List.find?_eq_none.mp first item mem)
      have all : prices.front sub.items = sub.items := by
        refine List.takeWhile_eq_self_iff.mpr fun item mem => ?_
        rw [unplanned item mem]
        rfl
      rw [first] at told
      exact unplanned_never unplanned (fun item mem => filled item (all.symm ▸ mem)) told
  · rw [found] at told
    rw [blank_never_iff blank told]
    exact ⟨fun blanks _ => blanks, fun holds => holds ⟨item, mem, blank⟩⟩

def proPrices : PriceMap := ⟨"price_pro".toList, "price_business".toList, []⟩

def subscriptionOf (items : List LineItem) : StripeSubscription :=
  ⟨"sub".toList, "cus".toList, "active".toList, false, 0, 0, [("org_id".toList, ['o'])], items⟩

def blankItem : LineItem := ⟨1, [], 0, 0⟩
def proItem : LineItem := ⟨5, "price_pro".toList, 0, 0⟩

theorem plan_first_never :
    ∃ data, fromSubscription proPrices (subscriptionOf [proItem, blankItem]) = some data ∧
      (NeverDowngrades proPrices [proItem, blankItem] data ↔
        ((∃ item ∈ proPrices.front [proItem, blankItem], item.priceId = []) →
          ∀ item ∈ [proItem, blankItem], item.priceId = [])) :=
  ⟨_, rfl, never_downgrades_iff
    (show fromSubscription proPrices (subscriptionOf [proItem, blankItem]) = some _ from rfl)⟩

/-- A paid item behind one with a blank price makes the organisation free. -/
theorem blank_first_free :
    ¬ ∀ (prices : PriceMap) (sub : StripeSubscription) (data : EventData),
      fromSubscription prices sub = some data → NeverDowngrades prices sub.items data := by
  intro never
  have plan := (never proPrices (subscriptionOf [blankItem, proItem]) _ rfl).plan proItem rfl
  exact absurd plan.1 (by decide)

end Dropway.Cloud
