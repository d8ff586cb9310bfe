import Dropway.Lib.LowerCase

/-! Strings of code units as texts: a surrogate that is not part of a pair reads as
U+FFFD. What comes from a text and is cut next to a unit that is no surrogate comes
from texts again. -/

namespace Dropway.Lib.Units

def isSurrogate (unit : UInt16) : Bool := isHigh unit || isLow unit

def scalar (unit : UInt16) : Char := if isSurrogate unit then Utf8.replacement else Char.ofNat unit.toNat

/-- The scalar values of a string, as encoders see them. -/
def toText : Units → Text
  | [] => []
  | [unit] => [scalar unit]
  | high :: low :: rest =>
    if isHigh high && isLow low then Char.ofNat (pairPoint high low) :: toText rest
    else scalar high :: toText (low :: rest)

/-- The units of one character. -/
def ofChar (c : Char) : Units :=
  if c.toNat < 0x10000 then [unit c] else pointPair c.toNat

@[simp] theorem ofText_nil : ofText [] = [] := rfl

@[simp] theorem ofText_cons (c : Char) (text : Text) : ofText (c :: text) = ofChar c ++ ofText text := by
  unfold ofText Text.utf16 ofChar
  rw [List.flatMap_cons, List.map_append]
  split <;> rfl

@[simp] theorem ofText_append (text more : Text) : ofText (text ++ more) = ofText text ++ ofText more := by
  induction text with
  | nil => rfl
  | cons c text ih => rw [List.cons_append, ofText_cons, ofText_cons, ih, List.append_assoc]

theorem char_valid (c : Char) : c.toNat < 0xD800 ∨ (0xDFFF < c.toNat ∧ c.toNat < 0x110000) := c.valid

theorem unit_plain {c : Char} (small : c.toNat < 0x10000) : isSurrogate (unit c) = false := by
  have valid := char_valid c
  unfold isSurrogate isHigh isLow unit
  rw [toNat_ofNat small]
  simp only [Bool.or_eq_false_iff, Bool.and_eq_false_iff, decide_eq_false_iff_not]
  omega

private theorem scalar_unit {c : Char} (small : c.toNat < 0x10000) : scalar (unit c) = c := by
  unfold scalar
  rw [unit_plain small, if_neg Bool.false_ne_true, unit, toNat_ofNat small, Char.ofNat_toNat]

private theorem toText_plain {u : UInt16} (plain : isSurrogate u = false) (rest : Units) :
    toText (u :: rest) = scalar u :: toText rest := by
  cases rest with
  | nil => rfl
  | cons low rest =>
    have single : ¬ (isHigh u && isLow low) = true := by
      rw [isSurrogate, Bool.or_eq_false_iff] at plain
      rw [plain.1]
      exact Bool.false_ne_true
    rw [toText, if_neg single]

/-- The pair of a point above the first plane. -/
theorem pointPair_read {point : Nat} (large : 0x10000 ≤ point) (bound : point < 0x110000) :
    ∃ high low, pointPair point = [high, low] ∧ isHigh high = true ∧ isLow low = true ∧ pairPoint high low = point := by
  have highValue : (UInt16.ofNat (0xD800 + (point - 0x10000) / 0x400)).toNat = 0xD800 + (point - 0x10000) / 0x400 :=
    toNat_ofNat (by omega)
  have lowValue : (UInt16.ofNat (0xDC00 + (point - 0x10000) % 0x400)).toNat = 0xDC00 + (point - 0x10000) % 0x400 :=
    toNat_ofNat (by omega)
  refine ⟨_, _, rfl, ?_, ?_, ?_⟩
  · simp only [isHigh, highValue, Bool.and_eq_true, decide_eq_true_eq]
    omega
  · simp only [isLow, lowValue, Bool.and_eq_true, decide_eq_true_eq]
    omega
  · have value : pairPoint (UInt16.ofNat (0xD800 + (point - 0x10000) / 0x400))
        (UInt16.ofNat (0xDC00 + (point - 0x10000) % 0x400)) = 0x10000 +
          (0xD800 + (point - 0x10000) / 0x400 - 0xD800) * 0x400 + (0xDC00 + (point - 0x10000) % 0x400 - 0xDC00) := by
      unfold pairPoint
      simp only [highValue, lowValue]
    omega

private theorem char_pair {c : Char} (large : ¬ c.toNat < 0x10000) :
    ∃ high low, pointPair c.toNat = [high, low] ∧ isHigh high = true ∧ isLow low = true ∧
      Char.ofNat (pairPoint high low) = c := by
  have valid := char_valid c
  obtain ⟨high, low, same, isHigh, isLow, point⟩ := pointPair_read (Nat.le_of_not_lt large) (by omega)
  exact ⟨high, low, same, isHigh, isLow, by rw [point, Char.ofNat_toNat]⟩

@[simp] theorem toText_ofText (text : Text) : toText (ofText text) = text := by
  induction text with
  | nil => rfl
  | cons c text ih =>
    rw [ofText_cons, ofChar]
    by_cases small : c.toNat < 0x10000
    · rw [if_pos small, List.singleton_append, toText_plain (unit_plain small), scalar_unit small, ih]
    · obtain ⟨high, low, same, isHigh, isLow, read⟩ := char_pair small
      rw [if_neg small, same, List.cons_append, List.singleton_append, toText, isHigh, isLow,
        Bool.true_and, if_pos rfl, read, ih]

/-- A text around a unit that is no surrogate. -/
theorem ofText_split {text : Text} {before after : Units} {u : UInt16} (plain : isSurrogate u = false)
    (split : ofText text = before ++ u :: after) :
    ∃ front c back, text = front ++ c :: back ∧ before = ofText front ∧ ofChar c = [u] ∧ after = ofText back := by
  induction text generalizing before with
  | nil => exact absurd (congrArg List.length split) (by simp)
  | cons c text ih =>
    rw [ofText_cons, ofChar] at split
    by_cases small : c.toNat < 0x10000
    · rw [if_pos small, List.singleton_append] at split
      cases before with
      | nil =>
        obtain ⟨rfl, rest⟩ := List.cons.inj split
        exact ⟨[], c, text, rfl, rfl, if_pos small, rest.symm⟩
      | cons first before =>
        obtain ⟨rfl, rest⟩ := List.cons.inj split
        obtain ⟨front, middle, back, rfl, rfl, one, rfl⟩ := ih rest
        refine ⟨c :: front, middle, back, rfl, ?_, one, rfl⟩
        rw [ofText_cons, ofChar, if_pos small]
        rfl
    · obtain ⟨high, low, same, isHigh, isLow, read⟩ := char_pair small
      rw [if_neg small, same, List.cons_append, List.singleton_append] at split
      rw [isSurrogate, Bool.or_eq_false_iff] at plain
      cases before with
      | nil =>
        obtain ⟨rfl, rest⟩ := List.cons.inj split
        exact absurd (plain.1.symm.trans isHigh) Bool.false_ne_true
      | cons first before =>
        obtain ⟨rfl, rest⟩ := List.cons.inj split
        cases before with
        | nil =>
          obtain ⟨rfl, rest⟩ := List.cons.inj rest
          exact absurd (plain.2.symm.trans isLow) Bool.false_ne_true
        | cons second before =>
          obtain ⟨rfl, tail⟩ := List.cons.inj rest
          obtain ⟨front, middle, back, rfl, rfl, one, rfl⟩ := ih tail
          refine ⟨c :: front, middle, back, rfl, ?_, one, rfl⟩
          rw [ofText_cons, ofChar, if_neg small, same]
          rfl

end Dropway.Lib.Units
