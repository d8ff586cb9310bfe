import Dropway.Lib.JsonRead

/-! Integers in decimal, as Go's strconv reads and writes them: Atoi stops at 64
bits, and answers with the nearest bound beside its error. -/

namespace Dropway.Lib.Strconv
open JsonText (natValue decimal)

inductive NumError where
  | malformed
  | outOfRange
  deriving DecidableEq

def natural (digits : Text) : Option Nat :=
  if digits ≠ [] ∧ digits.all Char.isDigit = true then some (natValue digits) else none

def withSign (negative : Bool) (n : Nat) : Int := if negative = true then -n else n

/-- The integer that a text denotes, of any size. -/
def numeral : Text → Option Int
  | '-' :: digits => (natural digits).map (withSign true)
  | '+' :: digits => (natural digits).map (withSign false)
  | digits => (natural digits).map (withSign false)

/-- The loop of ParseUint. -/
def parseDigits (n : Nat) : Text → Nat × Option NumError
  | [] => (n, none)
  | c :: rest =>
    if c.isDigit = true then
      if (2 ^ 64 - 1) / 10 + 1 ≤ n ∨ 2 ^ 64 ≤ n * 10 + (c.toNat - 48) then (2 ^ 64 - 1, some .outOfRange)
      else parseDigits (n * 10 + (c.toNat - 48)) rest
    else (0, some .malformed)

def parseUint (text : Text) : Nat × Option NumError :=
  if text = [] then (0, some .malformed) else parseDigits 0 text

def signed (negative : Bool) (parsed : Nat × Option NumError) : Int × Option NumError :=
  if parsed.2 = some .malformed then (0, some .malformed)
  else if negative = false ∧ 2 ^ 63 ≤ parsed.1 then (2 ^ 63 - 1, some .outOfRange)
  else if negative = true ∧ 2 ^ 63 < parsed.1 then (-2 ^ 63, some .outOfRange)
  else (withSign negative parsed.1, none)

def atoi : Text → Int × Option NumError
  | '-' :: rest => signed true (parseUint rest)
  | '+' :: rest => signed false (parseUint rest)
  | text => signed false (parseUint text)

def itoa (n : Int) : Text := if n < 0 then '-' :: decimal n.natAbs else decimal n.natAbs

private def shifted (n : Nat) (digits : Text) : Nat := digits.foldl (fun n c => n * 10 + (c.toNat - 48)) n

private theorem le_shifted (n : Nat) (digits : Text) : n ≤ shifted n digits := by
  induction digits generalizing n with
  | nil => exact le_rfl
  | cons c rest ih =>
    have later : n * 10 + (c.toNat - 48) ≤ shifted n (c :: rest) := ih _
    omega

private theorem parseDigits_ok {n m : Nat} {text : Text} (small : n < 2 ^ 64) :
    parseDigits n text = (m, none) ↔ text.all Char.isDigit = true ∧ shifted n text = m ∧ m < 2 ^ 64 := by
  induction text generalizing n with
  | nil =>
    constructor
    · intro read
      cases read
      exact ⟨rfl, rfl, small⟩
    · intro value
      obtain ⟨-, rfl, -⟩ := value
      rfl
  | cons c rest ih =>
    have step : shifted n (c :: rest) = shifted (n * 10 + (c.toNat - 48)) rest := rfl
    rw [parseDigits, step, List.all_cons, Bool.and_eq_true]
    by_cases digit : c.isDigit = true
    · rw [if_pos digit]
      by_cases large : 2 ^ 64 ≤ n * 10 + (c.toNat - 48)
      · rw [if_pos (Or.inr large)]
        refine iff_of_false (fun read => by cases read) ?_
        intro value
        have grows := le_shifted (n * 10 + (c.toNat - 48)) rest
        omega
      · have fits : ¬ ((2 ^ 64 - 1) / 10 + 1 ≤ n ∨ 2 ^ 64 ≤ n * 10 + (c.toNat - 48)) := by omega
        rw [if_neg fits, ih (Nat.lt_of_not_le large), and_assoc, and_iff_right digit]
    · rw [if_neg digit]
      exact iff_of_false (fun read => by cases read) fun value => digit value.1.1

private theorem parseDigits_cases (n : Nat) (text : Text) :
    (parseDigits n text).2 = none ∨ (parseDigits n text).2 = some .malformed ∨
      parseDigits n text = (2 ^ 64 - 1, some .outOfRange) := by
  induction text generalizing n with
  | nil => exact Or.inl rfl
  | cons c rest ih =>
    rw [parseDigits]
    split
    · split
      · exact Or.inr (Or.inr rfl)
      · exact ih _
    · exact Or.inr (Or.inl rfl)

private theorem parseUint_ok {text : Text} {n : Nat} :
    parseUint text = (n, none) ↔ natural text = some n ∧ n < 2 ^ 64 := by
  unfold parseUint natural
  by_cases empty : text = []
  · rw [if_pos empty, if_neg fun both => both.1 empty]
    exact iff_of_false (fun read => by cases read) (fun value => by cases value.1)
  · rw [if_neg empty, parseDigits_ok (by decide)]
    by_cases digits : text.all Char.isDigit = true
    · rw [if_pos ⟨empty, digits⟩, and_iff_right digits, Option.some_inj]
      rfl
    · rw [if_neg fun both => digits both.2]
      exact iff_of_false (fun value => digits value.1) (fun value => by cases value.1)

private theorem parseUint_cases (text : Text) :
    (parseUint text).2 = none ∨ (parseUint text).2 = some .malformed ∨
      parseUint text = (2 ^ 64 - 1, some .outOfRange) := by
  unfold parseUint
  split
  · exact Or.inr (Or.inl rfl)
  · exact parseDigits_cases 0 text

private theorem no_value {negative : Bool} {text : Text} {n : Int} (failed : (parseUint text).2 ≠ none) :
    ¬ ((natural text).map (withSign negative) = some n ∧ -2 ^ 63 ≤ n ∧ n < 2 ^ 63) := by
  intro both
  obtain ⟨value, least, most⟩ := both
  obtain ⟨m, denotes, rfl⟩ := Option.map_eq_some_iff.mp value
  by_cases small : m < 2 ^ 64
  · rw [parseUint_ok.mpr ⟨denotes, small⟩] at failed
    exact failed rfl
  · cases negative with
    | false =>
      simp only [withSign, Bool.false_eq_true, if_false] at most
      omega
    | true =>
      simp only [withSign, if_true] at least
      omega

private theorem signed_ok {negative : Bool} {text : Text} {n : Int} :
    signed negative (parseUint text) = (n, none) ↔
      (natural text).map (withSign negative) = some n ∧ -2 ^ 63 ≤ n ∧ n < 2 ^ 63 := by
  rcases parseUint_cases text with read | malformed | large
  · have value : parseUint text = ((parseUint text).1, none) := Prod.ext rfl read
    obtain ⟨denotes, small⟩ := parseUint_ok.mp value
    rw [value, denotes, Option.map_some, Option.some_inj, signed, if_neg (fun same => by cases same)]
    cases negative with
    | false =>
      simp only [withSign, true_and, Bool.false_eq_true, false_and, if_false]
      by_cases out : 2 ^ 63 ≤ (parseUint text).1
      · rw [if_pos out]
        exact iff_of_false (fun same => by cases same) (fun both => by omega)
      · rw [if_neg out, Prod.mk.injEq, and_iff_left rfl]
        refine ⟨fun same => ⟨same, ?_, ?_⟩, And.left⟩ <;> omega
    | true =>
      simp only [withSign, Bool.true_eq_false, false_and, if_false, true_and, if_true]
      by_cases out : 2 ^ 63 < (parseUint text).1
      · rw [if_pos out]
        exact iff_of_false (fun same => by cases same) (fun both => by omega)
      · rw [if_neg out, Prod.mk.injEq, and_iff_left rfl]
        refine ⟨fun same => ⟨same, ?_, ?_⟩, And.left⟩ <;> omega
  · rw [signed, if_pos malformed]
    refine iff_of_false (fun same => by cases same) (no_value ?_)
    rw [malformed]
    exact Option.some_ne_none _
  · have failed : (parseUint text).2 ≠ none := by
      rw [large]
      exact Option.some_ne_none _
    rw [large]
    refine iff_of_false ?_ (no_value failed)
    cases negative <;> exact fun same => by cases same

/-- Atoi reads the integer that the text denotes when it has 64 bits. -/
theorem atoi_ok {text : Text} {n : Int} :
    atoi text = (n, none) ↔ numeral text = some n ∧ -2 ^ 63 ≤ n ∧ n < 2 ^ 63 := by
  unfold atoi numeral
  split
  · exact signed_ok
  · exact signed_ok
  · exact signed_ok

private theorem natural_decimal (n : Nat) : natural (decimal n) = some n := by
  obtain ⟨filled, digits⟩ := JsonText.decimal_digits n
  rw [natural, if_pos ⟨filled, List.all_eq_true.mpr digits⟩, JsonText.natValue_decimal]

theorem numeral_itoa (n : Int) : numeral (itoa n) = some n := by
  unfold itoa
  split
  · rename_i negative
    change (natural (decimal n.natAbs)).map (withSign true) = some n
    rw [natural_decimal, Option.map_some, withSign, if_pos rfl]
    congr 1
    omega
  · rename_i positive
    have value : (natural (decimal n.natAbs)).map (withSign false) = some n := by
      rw [natural_decimal, Option.map_some, withSign, if_neg Bool.false_ne_true]
      congr 1
      omega
    have digits := (JsonText.decimal_digits n.natAbs).2
    unfold numeral
    split
    · rename_i rest written
      rw [written] at digits
      cases digits '-' (List.mem_cons_self ..)
    · rename_i rest written
      rw [written] at digits
      cases digits '+' (List.mem_cons_self ..)
    · exact value

theorem atoi_itoa {n : Int} (least : -2 ^ 63 ≤ n) (most : n < 2 ^ 63) : atoi (itoa n) = (n, none) :=
  atoi_ok.mpr ⟨numeral_itoa n, least, most⟩

end Dropway.Lib.Strconv
