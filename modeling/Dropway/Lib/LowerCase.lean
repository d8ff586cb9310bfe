import Mathlib.Data.List.Forall2
import Dropway.Lib.Utf8

/-! Strings as the web platform has them, sequences of code units, and their lower
case. It is taken code point by code point; one code point has a lower case of two
(Unicode 14). -/

namespace Dropway.Lib

abbrev Units := List UInt16

namespace Units

def ofText (text : Text) : Units := text.utf16.map UInt16.ofNat

def unit (c : Char) : UInt16 := UInt16.ofNat c.toNat

/-- `String.prototype.indexOf`. -/
def indexOf (part : Units) : Units → Option Nat
  | [] => if part = [] then some 0 else none
  | unit :: rest => if part.isPrefixOf (unit :: rest) then some 0 else (indexOf part rest).map (· + 1)

/-- The white space of regular expressions. -/
def spaces : List Nat :=
  [0x09, 0x0A, 0x0B, 0x0C, 0x0D, 0x20, 0xA0, 0x1680, 0x2000, 0x2001, 0x2002, 0x2003, 0x2004, 0x2005, 0x2006, 0x2007,
   0x2008, 0x2009, 0x200A, 0x2028, 0x2029, 0x202F, 0x205F, 0x3000, 0xFEFF]

def isSpace (unit : UInt16) : Bool := spaces.contains unit.toNat

def isHigh (unit : UInt16) : Bool := 0xD800 ≤ unit.toNat && unit.toNat < 0xDC00
def isLow (unit : UInt16) : Bool := 0xDC00 ≤ unit.toNat && unit.toNat < 0xE000

/-! ### The mapping -/

/-- Every `step`-th code point from the first to the last has its lower case at a distance. -/
structure CaseRange where
  first : Nat
  last : Nat
  step : Nat
  shift : Int
  deriving DecidableEq

/-- All code points whose lower case is one other code point. -/
def lowerRanges : List CaseRange :=
  [⟨0x41, 0x5A, 1, 32⟩, ⟨0xC0, 0xD6, 1, 32⟩, ⟨0xD8, 0xDE, 1, 32⟩, ⟨0x100, 0x12E, 2, 1⟩, ⟨0x132, 0x136, 2, 1⟩,
   ⟨0x139, 0x147, 2, 1⟩, ⟨0x14A, 0x176, 2, 1⟩, ⟨0x178, 0x178, 1, -121⟩, ⟨0x179, 0x17D, 2, 1⟩, ⟨0x181, 0x181, 1, 210⟩,
   ⟨0x182, 0x184, 2, 1⟩, ⟨0x186, 0x186, 1, 206⟩, ⟨0x187, 0x187, 1, 1⟩, ⟨0x189, 0x18A, 1, 205⟩, ⟨0x18B, 0x18B, 1, 1⟩,
   ⟨0x18E, 0x18E, 1, 79⟩, ⟨0x18F, 0x18F, 1, 202⟩, ⟨0x190, 0x190, 1, 203⟩, ⟨0x191, 0x191, 1, 1⟩,
   ⟨0x193, 0x193, 1, 205⟩, ⟨0x194, 0x194, 1, 207⟩, ⟨0x196, 0x196, 1, 211⟩, ⟨0x197, 0x197, 1, 209⟩,
   ⟨0x198, 0x198, 1, 1⟩, ⟨0x19C, 0x19C, 1, 211⟩, ⟨0x19D, 0x19D, 1, 213⟩, ⟨0x19F, 0x19F, 1, 214⟩, ⟨0x1A0, 0x1A4, 2, 1⟩,
   ⟨0x1A6, 0x1A6, 1, 218⟩, ⟨0x1A7, 0x1A7, 1, 1⟩, ⟨0x1A9, 0x1A9, 1, 218⟩, ⟨0x1AC, 0x1AC, 1, 1⟩, ⟨0x1AE, 0x1AE, 1, 218⟩,
   ⟨0x1AF, 0x1AF, 1, 1⟩, ⟨0x1B1, 0x1B2, 1, 217⟩, ⟨0x1B3, 0x1B5, 2, 1⟩, ⟨0x1B7, 0x1B7, 1, 219⟩, ⟨0x1B8, 0x1B8, 1, 1⟩,
   ⟨0x1BC, 0x1BC, 1, 1⟩, ⟨0x1C4, 0x1C4, 1, 2⟩, ⟨0x1C5, 0x1C5, 1, 1⟩, ⟨0x1C7, 0x1C7, 1, 2⟩, ⟨0x1C8, 0x1C8, 1, 1⟩,
   ⟨0x1CA, 0x1CA, 1, 2⟩, ⟨0x1CB, 0x1DB, 2, 1⟩, ⟨0x1DE, 0x1EE, 2, 1⟩, ⟨0x1F1, 0x1F1, 1, 2⟩, ⟨0x1F2, 0x1F4, 2, 1⟩,
   ⟨0x1F6, 0x1F6, 1, -97⟩, ⟨0x1F7, 0x1F7, 1, -56⟩, ⟨0x1F8, 0x21E, 2, 1⟩, ⟨0x220, 0x220, 1, -130⟩,
   ⟨0x222, 0x232, 2, 1⟩, ⟨0x23A, 0x23A, 1, 10795⟩, ⟨0x23B, 0x23B, 1, 1⟩, ⟨0x23D, 0x23D, 1, -163⟩,
   ⟨0x23E, 0x23E, 1, 10792⟩, ⟨0x241, 0x241, 1, 1⟩, ⟨0x243, 0x243, 1, -195⟩, ⟨0x244, 0x244, 1, 69⟩,
   ⟨0x245, 0x245, 1, 71⟩, ⟨0x246, 0x24E, 2, 1⟩, ⟨0x370, 0x372, 2, 1⟩, ⟨0x376, 0x376, 1, 1⟩, ⟨0x37F, 0x37F, 1, 116⟩,
   ⟨0x386, 0x386, 1, 38⟩, ⟨0x388, 0x38A, 1, 37⟩, ⟨0x38C, 0x38C, 1, 64⟩, ⟨0x38E, 0x38F, 1, 63⟩, ⟨0x391, 0x3A1, 1, 32⟩,
   ⟨0x3A3, 0x3AB, 1, 32⟩, ⟨0x3CF, 0x3CF, 1, 8⟩, ⟨0x3D8, 0x3EE, 2, 1⟩, ⟨0x3F4, 0x3F4, 1, -60⟩, ⟨0x3F7, 0x3F7, 1, 1⟩,
   ⟨0x3F9, 0x3F9, 1, -7⟩, ⟨0x3FA, 0x3FA, 1, 1⟩, ⟨0x3FD, 0x3FF, 1, -130⟩, ⟨0x400, 0x40F, 1, 80⟩, ⟨0x410, 0x42F, 1, 32⟩,
   ⟨0x460, 0x480, 2, 1⟩, ⟨0x48A, 0x4BE, 2, 1⟩, ⟨0x4C0, 0x4C0, 1, 15⟩, ⟨0x4C1, 0x4CD, 2, 1⟩, ⟨0x4D0, 0x52E, 2, 1⟩,
   ⟨0x531, 0x556, 1, 48⟩, ⟨0x10A0, 0x10C5, 1, 7264⟩, ⟨0x10C7, 0x10C7, 1, 7264⟩, ⟨0x10CD, 0x10CD, 1, 7264⟩,
   ⟨0x13A0, 0x13EF, 1, 38864⟩, ⟨0x13F0, 0x13F5, 1, 8⟩, ⟨0x1C90, 0x1CBA, 1, -3008⟩, ⟨0x1CBD, 0x1CBF, 1, -3008⟩,
   ⟨0x1E00, 0x1E94, 2, 1⟩, ⟨0x1E9E, 0x1E9E, 1, -7615⟩, ⟨0x1EA0, 0x1EFE, 2, 1⟩, ⟨0x1F08, 0x1F0F, 1, -8⟩,
   ⟨0x1F18, 0x1F1D, 1, -8⟩, ⟨0x1F28, 0x1F2F, 1, -8⟩, ⟨0x1F38, 0x1F3F, 1, -8⟩, ⟨0x1F48, 0x1F4D, 1, -8⟩,
   ⟨0x1F59, 0x1F5F, 2, -8⟩, ⟨0x1F68, 0x1F6F, 1, -8⟩, ⟨0x1F88, 0x1F8F, 1, -8⟩, ⟨0x1F98, 0x1F9F, 1, -8⟩,
   ⟨0x1FA8, 0x1FAF, 1, -8⟩, ⟨0x1FB8, 0x1FB9, 1, -8⟩, ⟨0x1FBA, 0x1FBB, 1, -74⟩, ⟨0x1FBC, 0x1FBC, 1, -9⟩,
   ⟨0x1FC8, 0x1FCB, 1, -86⟩, ⟨0x1FCC, 0x1FCC, 1, -9⟩, ⟨0x1FD8, 0x1FD9, 1, -8⟩, ⟨0x1FDA, 0x1FDB, 1, -100⟩,
   ⟨0x1FE8, 0x1FE9, 1, -8⟩, ⟨0x1FEA, 0x1FEB, 1, -112⟩, ⟨0x1FEC, 0x1FEC, 1, -7⟩, ⟨0x1FF8, 0x1FF9, 1, -128⟩,
   ⟨0x1FFA, 0x1FFB, 1, -126⟩, ⟨0x1FFC, 0x1FFC, 1, -9⟩, ⟨0x2126, 0x2126, 1, -7517⟩, ⟨0x212A, 0x212A, 1, -8383⟩,
   ⟨0x212B, 0x212B, 1, -8262⟩, ⟨0x2132, 0x2132, 1, 28⟩, ⟨0x2160, 0x216F, 1, 16⟩, ⟨0x2183, 0x2183, 1, 1⟩,
   ⟨0x24B6, 0x24CF, 1, 26⟩, ⟨0x2C00, 0x2C2F, 1, 48⟩, ⟨0x2C60, 0x2C60, 1, 1⟩, ⟨0x2C62, 0x2C62, 1, -10743⟩,
   ⟨0x2C63, 0x2C63, 1, -3814⟩, ⟨0x2C64, 0x2C64, 1, -10727⟩, ⟨0x2C67, 0x2C6B, 2, 1⟩, ⟨0x2C6D, 0x2C6D, 1, -10780⟩,
   ⟨0x2C6E, 0x2C6E, 1, -10749⟩, ⟨0x2C6F, 0x2C6F, 1, -10783⟩, ⟨0x2C70, 0x2C70, 1, -10782⟩, ⟨0x2C72, 0x2C72, 1, 1⟩,
   ⟨0x2C75, 0x2C75, 1, 1⟩, ⟨0x2C7E, 0x2C7F, 1, -10815⟩, ⟨0x2C80, 0x2CE2, 2, 1⟩, ⟨0x2CEB, 0x2CED, 2, 1⟩,
   ⟨0x2CF2, 0x2CF2, 1, 1⟩, ⟨0xA640, 0xA66C, 2, 1⟩, ⟨0xA680, 0xA69A, 2, 1⟩, ⟨0xA722, 0xA72E, 2, 1⟩,
   ⟨0xA732, 0xA76E, 2, 1⟩, ⟨0xA779, 0xA77B, 2, 1⟩, ⟨0xA77D, 0xA77D, 1, -35332⟩, ⟨0xA77E, 0xA786, 2, 1⟩,
   ⟨0xA78B, 0xA78B, 1, 1⟩, ⟨0xA78D, 0xA78D, 1, -42280⟩, ⟨0xA790, 0xA792, 2, 1⟩, ⟨0xA796, 0xA7A8, 2, 1⟩,
   ⟨0xA7AA, 0xA7AA, 1, -42308⟩, ⟨0xA7AB, 0xA7AB, 1, -42319⟩, ⟨0xA7AC, 0xA7AC, 1, -42315⟩, ⟨0xA7AD, 0xA7AD, 1, -42305⟩,
   ⟨0xA7AE, 0xA7AE, 1, -42308⟩, ⟨0xA7B0, 0xA7B0, 1, -42258⟩, ⟨0xA7B1, 0xA7B1, 1, -42282⟩, ⟨0xA7B2, 0xA7B2, 1, -42261⟩,
   ⟨0xA7B3, 0xA7B3, 1, 928⟩, ⟨0xA7B4, 0xA7C2, 2, 1⟩, ⟨0xA7C4, 0xA7C4, 1, -48⟩, ⟨0xA7C5, 0xA7C5, 1, -42307⟩,
   ⟨0xA7C6, 0xA7C6, 1, -35384⟩, ⟨0xA7C7, 0xA7C9, 2, 1⟩, ⟨0xA7D0, 0xA7D0, 1, 1⟩, ⟨0xA7D6, 0xA7D8, 2, 1⟩,
   ⟨0xA7F5, 0xA7F5, 1, 1⟩, ⟨0xFF21, 0xFF3A, 1, 32⟩, ⟨0x10400, 0x10427, 1, 40⟩, ⟨0x104B0, 0x104D3, 1, 40⟩,
   ⟨0x10570, 0x1057A, 1, 39⟩, ⟨0x1057C, 0x1058A, 1, 39⟩, ⟨0x1058C, 0x10592, 1, 39⟩, ⟨0x10594, 0x10595, 1, 39⟩,
   ⟨0x10C80, 0x10CB2, 1, 64⟩, ⟨0x118A0, 0x118BF, 1, 32⟩, ⟨0x16E40, 0x16E5F, 1, 32⟩, ⟨0x1E900, 0x1E921, 1, 34⟩]

def lowerPoint (point : Nat) : Nat :=
  match lowerRanges.find? fun r => r.first ≤ point ∧ point ≤ r.last ∧ (point - r.first) % r.step = 0 with
  | some r => (point + r.shift).toNat
  | none => point

/-- The dotted capital I becomes two code points, and the capital sigma is another
letter at the end of a word. -/
def lowerUnit (final : Bool) (unit : UInt16) : Units :=
  if unit = 0x130 then [0x69, 0x307]
  else if unit = 0x3A3 ∧ final then [0x3C2]
  else [UInt16.ofNat (lowerPoint unit.toNat)]

/-- The code point beyond the first plane that two units stand for, and its units. -/
def pairPoint (high low : UInt16) : Nat := 0x10000 + (high.toNat - 0xD800) * 0x400 + (low.toNat - 0xDC00)

def pointPair (point : Nat) : Units :=
  [UInt16.ofNat (0xD800 + (point - 0x10000) / 0x400), UInt16.ofNat (0xDC00 + (point - 0x10000) % 0x400)]

/-- What comes before is kept in reverse. -/
def lowerFrom (endsWord : Units → Units → Bool) : Units → Units → Units
  | _, [] => []
  | before, [unit] => lowerUnit (endsWord before []) unit
  | before, high :: low :: rest =>
    if isHigh high && isLow low then
      pointPair (lowerPoint (pairPoint high low)) ++ lowerFrom endsWord (low :: high :: before) rest
    else lowerUnit (endsWord before (low :: rest)) high ++ lowerFrom endsWord (high :: before) (low :: rest)

/-- `String.prototype.toLowerCase`. Whether a sigma ends a word is left open. -/
def toLowerCase (endsWord : Units → Units → Bool) (text : Units) : Units := lowerFrom endsWord [] text

/-! ### What the mapping keeps -/

/-- What holds of every row of the table: ASCII stays apart, but for the Kelvin sign;
so do the planes; and no white space has or is a lower case. -/
def CaseRange.Apart (r : CaseRange) : Prop :=
  (r.last < 0x80 ∨ 0x80 ≤ r.first ∧ (0x80 ≤ r.first + r.shift ∨ r = ⟨0x212A, 0x212A, 1, -8383⟩)) ∧
  (r.last < 0x10000 ∧ r.last + r.shift < 0x10000 ∨ 0x10000 ≤ r.first ∧ 0x10000 ≤ r.first + r.shift) ∧
  (∀ space ∈ spaces, ¬ (r.first ≤ space ∧ space ≤ r.last)) ∧
  ∀ space ∈ spaces, ¬ (r.first + r.shift ≤ (space : Int) ∧ (space : Int) ≤ r.last + r.shift)

instance (r : CaseRange) : Decidable r.Apart := by
  unfold CaseRange.Apart
  infer_instance

theorem lowerRanges_apart : ∀ r ∈ lowerRanges, r.Apart := by decide +kernel

theorem lowerPoint_cases (point : Nat) :
    lowerPoint point = point ∨ ∃ r ∈ lowerRanges, r.first ≤ point ∧ point ≤ r.last ∧
      lowerPoint point = (point + r.shift).toNat := by
  unfold lowerPoint
  cases found : lowerRanges.find? fun r => r.first ≤ point ∧ point ≤ r.last ∧ (point - r.first) % r.step = 0 with
  | none => exact .inl rfl
  | some r =>
    have inside : r.first ≤ point ∧ point ≤ r.last ∧ (point - r.first) % r.step = 0 := by
      simpa only [decide_eq_true_eq] using List.find?_some found
    exact .inr ⟨r, List.mem_of_find?_eq_some found, inside.1, inside.2.1, rfl⟩

theorem lowerPoint_ascii {point : Nat} (small : point < 0x80) :
    lowerPoint point = if 0x41 ≤ point ∧ point ≤ 0x5A then point + 32 else point := by
  have all : ∀ n : Fin 0x80, lowerPoint n = if 0x41 ≤ n.val ∧ n.val ≤ 0x5A then n.val + 32 else n := by decide +kernel
  exact all ⟨point, small⟩

theorem lowerPoint_beyond {point : Nat} (large : 0x80 ≤ point) : lowerPoint point = 0x6B ∨ 0x80 ≤ lowerPoint point := by
  rcases lowerPoint_cases point with same | ⟨r, mem, first, last, same⟩
  · exact .inr (same.symm ▸ large)
  · rcases (lowerRanges_apart r mem).1 with ascii | ⟨-, shifted | kelvin⟩
    · omega
    · omega
    · subst kelvin
      left
      simp only at first last same
      omega

theorem lowerPoint_plane {point : Nat} : lowerPoint point < 0x10000 ↔ point < 0x10000 := by
  rcases lowerPoint_cases point with same | ⟨r, mem, first, last, same⟩
  · rw [same]
  · rcases (lowerRanges_apart r mem).2.1 with low | high <;> omega

theorem lowerPoint_space {point : Nat} : lowerPoint point ∈ spaces ↔ point ∈ spaces := by
  rcases lowerPoint_cases point with same | ⟨r, mem, first, last, same⟩
  · rw [same]
  · obtain ⟨-, -, source, image⟩ := lowerRanges_apart r mem
    constructor
    · intro space
      exfalso
      have away := image _ space
      by_cases negative : (point + r.shift : Int) < 0
      · have zero : lowerPoint point = 0 := by omega
        rw [zero] at space
        exact absurd space (by decide)
      · omega
    · intro space
      exact absurd ⟨first, last⟩ (source point space)

/-- A unit and its lower case, as far as ASCII and white space go. -/
structure LowersTo (unit lowered : UInt16) : Prop where
  ascii : unit.toNat < 0x80 →
    lowered.toNat = if 0x41 ≤ unit.toNat ∧ unit.toNat ≤ 0x5A then unit.toNat + 32 else unit.toNat
  beyond : 0x80 ≤ unit.toNat → lowered.toNat = 0x6B ∨ 0x80 ≤ lowered.toNat
  space : isSpace lowered = isSpace unit

/-- What a unit becomes. -/
def Lowered (unit : UInt16) (lowered : Units) : Prop :=
  unit = 0x130 ∧ lowered = [0x69, 0x307] ∨ unit ≠ 0x130 ∧ ∃ v, lowered = [v] ∧ LowersTo unit v

private theorem lowersTo_far {unit lowered : UInt16} (large : 0xD800 ≤ unit.toNat) (small : unit.toNat < 0xE000)
    (far : 0xD800 ≤ lowered.toNat) (near : lowered.toNat < 0xE000) : LowersTo unit lowered := by
  have away (n : Nat) (least : 0xD800 ≤ n) (most : n < 0xE000) : spaces.contains n = false := by
    simp only [spaces, List.contains_eq_mem, List.mem_cons, List.not_mem_nil, decide_eq_false_iff_not, or_false]
    omega
  refine ⟨fun ascii => by omega, fun _ => .inr (by omega), ?_⟩
  unfold isSpace
  rw [away _ large small, away _ far near]

theorem toNat_ofNat {n : Nat} (small : n < 0x10000) : (UInt16.ofNat n).toNat = n := by
  rw [UInt16.toNat_ofNat']
  exact Nat.mod_eq_of_lt small

theorem lowerUnit_lowered (final : Bool) (unit : UInt16) : Lowered unit (lowerUnit final unit) := by
  unfold lowerUnit
  by_cases dotted : unit = 0x130
  · exact .inl ⟨dotted, if_pos dotted⟩
  · rw [if_neg dotted]
    refine .inr ⟨dotted, ?_⟩
    by_cases sigma : unit = 0x3A3 ∧ final = true
    · refine ⟨0x3C2, if_pos sigma, ?_⟩
      rw [sigma.1]
      exact ⟨fun small => absurd small (by decide), fun _ => .inr (by decide), by decide⟩
    · refine ⟨UInt16.ofNat (lowerPoint unit.toNat), if_neg sigma, ?_⟩
      have plane : lowerPoint unit.toNat < 0x10000 := lowerPoint_plane.mpr unit.toNat_lt
      have value := toNat_ofNat plane
      refine ⟨fun small => ?_, fun large => ?_, ?_⟩
      · rw [value, lowerPoint_ascii small]
      · rw [value]
        exact lowerPoint_beyond large
      · unfold isSpace
        rw [value, List.contains_eq_mem, List.contains_eq_mem, decide_eq_decide]
        exact lowerPoint_space

/-- The two units of a pair become the two units of another. -/
private theorem pair_lowered {high low : UInt16} (pair : (isHigh high && isLow low) = true) :
    ∃ first second, pointPair (lowerPoint (pairPoint high low)) = [first, second] ∧ Lowered high [first] ∧
      Lowered low [second] := by
  simp only [isHigh, isLow, Bool.and_eq_true, decide_eq_true_eq] at pair
  obtain ⟨⟨highLeast, highMost⟩, lowLeast, lowMost⟩ := pair
  have beyond : ¬ lowerPoint (pairPoint high low) < 0x10000 := by
    intro small
    have plane := lowerPoint_plane.mp small
    unfold pairPoint at plane
    omega
  have bound : lowerPoint (pairPoint high low) < 0x110000 := by
    have small : pairPoint high low < 0x110000 := by
      unfold pairPoint
      omega
    rcases lowerPoint_cases (pairPoint high low) with same | ⟨r, mem, first, last, same⟩
    · omega
    · have rows : ∀ r ∈ lowerRanges, r.last + r.shift < 0x110000 := by decide +kernel
      have row := rows r mem
      omega
  generalize lowerPoint (pairPoint high low) = point at beyond bound
  have highValue : (UInt16.ofNat (0xD800 + (point - 0x10000) / 0x400)).toNat = 0xD800 + (point - 0x10000) / 0x400 :=
    toNat_ofNat (by omega)
  have lowValue : (UInt16.ofNat (0xDC00 + (point - 0x10000) % 0x400)).toNat = 0xDC00 + (point - 0x10000) % 0x400 :=
    toNat_ofNat (by omega)
  have plain (unit : UInt16) (large : 0xD800 ≤ unit.toNat) : unit ≠ 0x130 := by
    rintro rfl
    exact absurd large (by decide)
  refine ⟨_, _, rfl, .inr ⟨plain high (by omega), _, rfl, ?_⟩, .inr ⟨plain low (by omega), _, rfl, ?_⟩⟩
  · exact lowersTo_far highLeast (by omega) (by omega) (by omega)
  · exact lowersTo_far (by omega) lowMost (by omega) (by omega)

/-- Unit by unit. -/
theorem lowerFrom_lowered (endsWord : Units → Units → Bool) (before text : Units) :
    ∃ pieces, List.Forall₂ Lowered text pieces ∧ lowerFrom endsWord before text = pieces.flatten := by
  induction before, text using lowerFrom.induct with
  | case1 before => exact ⟨[], .nil, rfl⟩
  | case2 before unit =>
    refine ⟨[lowerUnit (endsWord before []) unit], .cons (lowerUnit_lowered _ _) .nil, ?_⟩
    rw [lowerFrom, List.flatten_singleton]
  | case3 before high low rest pair ih =>
    obtain ⟨pieces, lowered, same⟩ := ih
    obtain ⟨first, second, both, firstTo, secondTo⟩ := pair_lowered pair
    refine ⟨[first] :: [second] :: pieces, .cons firstTo (.cons secondTo lowered), ?_⟩
    rw [lowerFrom, if_pos pair, same, both]
    rfl
  | case4 before high low rest single ih =>
    obtain ⟨pieces, lowered, same⟩ := ih
    refine ⟨lowerUnit (endsWord before (low :: rest)) high :: pieces, .cons (lowerUnit_lowered _ _) lowered, ?_⟩
    rw [lowerFrom, if_neg single, same, List.flatten_cons]

end Units
end Dropway.Lib
