import Mathlib.Algebra.Group.Nat.Defs
import Mathlib.Tactic.Common

/-! Cyclic redundancy checks with the lowest bit first, for any polynomial: bit by bit,
and byte by byte with a table. -/

namespace Dropway.Lib.Crc

variable {w : Nat} (poly : BitVec w)

/-- One step of the division by the polynomial. -/
def shift (register : BitVec w) : BitVec w :=
  if register.getLsbD 0 then poly ^^^ (register >>> 1) else register >>> 1

def shifts : Nat → BitVec w → BitVec w
  | 0, register => register
  | n + 1, register => shifts n (shift poly register)

/-- A bit of the message. -/
def feed (register : BitVec w) (bit : Bool) : BitVec w :=
  shift poly (register ^^^ BitVec.ofNat w bit.toNat)

/-- The lowest bits of a number, the lowest of all first. -/
def bits : Nat → Nat → List Bool
  | 0, _ => []
  | n + 1, value => value.testBit 0 :: bits n (value / 2)

def feedByte (register : BitVec w) (byte : UInt8) : BitVec w := (bits 8 byte.toNat).foldl (feed poly) register

/-- The remainder for a whole message, bit by bit. -/
def remainder (start : BitVec w) (message : List UInt8) : BitVec w := message.foldl (feedByte poly) start

/-! ### Linearity -/

theorem xor_swap (a b c d : BitVec w) : a ^^^ b ^^^ (c ^^^ d) = a ^^^ c ^^^ (b ^^^ d) := by
  rw [BitVec.xor_assoc, BitVec.xor_assoc, ← BitVec.xor_assoc b, ← BitVec.xor_assoc c, BitVec.xor_comm b c]

theorem shift_xor (a b : BitVec w) : shift poly (a ^^^ b) = shift poly a ^^^ shift poly b := by
  unfold shift
  rw [BitVec.getLsbD_xor, BitVec.ushiftRight_xor_distrib]
  cases a.getLsbD 0 with
  | false =>
    cases b.getLsbD 0 with
    | false => rfl
    | true =>
      change poly ^^^ (a >>> 1 ^^^ b >>> 1) = a >>> 1 ^^^ (poly ^^^ b >>> 1)
      rw [← BitVec.xor_assoc, ← BitVec.xor_assoc, BitVec.xor_comm poly]
  | true =>
    cases b.getLsbD 0 with
    | false => exact (BitVec.xor_assoc ..).symm
    | true =>
      change a >>> 1 ^^^ b >>> 1 = poly ^^^ a >>> 1 ^^^ (poly ^^^ b >>> 1)
      rw [xor_swap, BitVec.xor_self, BitVec.zero_xor]

theorem shifts_xor (n : Nat) (a b : BitVec w) : shifts poly n (a ^^^ b) = shifts poly n a ^^^ shifts poly n b := by
  induction n generalizing a b with
  | zero => rfl
  | succ n ih => rw [shifts, shifts, shifts, shift_xor, ih]

/-- Zeros at the bottom are shifted out. -/
theorem shifts_clear {n : Nat} {a : BitVec w} (clear : ∀ i < n, a.getLsbD i = false) : shifts poly n a = a >>> n := by
  induction n generalizing a with
  | zero => rfl
  | succ n ih =>
    have low : shift poly a = a >>> 1 := by
      unfold shift
      rw [clear 0 (Nat.succ_pos n)]
      rfl
    have above : ∀ i < n, (a >>> 1).getLsbD i = false := by
      intro i inside
      rw [BitVec.getLsbD_ushiftRight]
      exact clear _ (by omega)
    rw [shifts, low, ih above, ← BitVec.shiftRight_add, Nat.add_comm]

/-! ### Bytes -/

theorem ofNat_split (value : Nat) :
    BitVec.ofNat w value = BitVec.ofNat w (value.testBit 0).toNat ^^^ BitVec.ofNat w (2 * (value / 2)) := by
  apply BitVec.eq_of_getLsbD_eq
  intro i inside
  rw [BitVec.getLsbD_xor, BitVec.getLsbD_ofNat, BitVec.getLsbD_ofNat, BitVec.getLsbD_ofNat, decide_eq_true inside,
    Bool.true_and, Bool.true_and, Bool.true_and]
  cases i with
  | zero =>
    rw [Nat.testBit_zero (2 * _), Nat.mul_mod_right]
    cases value.testBit 0 with
    | true => rfl
    | false => rfl
  | succ i =>
    rw [Nat.testBit_succ, Nat.testBit_succ, Nat.testBit_succ, Nat.mul_div_cancel_left _ Nat.two_pos]
    cases value.testBit 0 with
    | true => exact (Bool.false_xor _ ▸ congrArg (· ^^ _) (Nat.zero_testBit i)).symm
    | false => exact (Bool.false_xor _ ▸ congrArg (· ^^ _) (Nat.zero_testBit i)).symm

theorem shift_even {value : Nat} (small : 2 * value < 2 ^ w) :
    shift poly (BitVec.ofNat w (2 * value)) = BitVec.ofNat w value := by
  have low : (BitVec.ofNat w (2 * value)).getLsbD 0 = false := by
    rw [BitVec.getLsbD_ofNat, Nat.testBit_zero, Nat.mul_mod_right]
    exact Bool.and_false _
  unfold shift
  rw [low, if_neg Bool.false_ne_true]
  apply BitVec.eq_of_toNat_eq
  rw [BitVec.toNat_ushiftRight, BitVec.toNat_ofNat, BitVec.toNat_ofNat, Nat.mod_eq_of_lt small, Nat.shiftRight_eq_div_pow,
    Nat.pow_one, Nat.mul_div_cancel_left _ Nat.two_pos, Nat.mod_eq_of_lt (by omega)]

/-- Bits that are fed one by one may as well be added at once. -/
theorem feed_bits {n value : Nat} (small : value < 2 ^ n) (fits : n ≤ w) (register : BitVec w) :
    (bits n value).foldl (feed poly) register = shifts poly n (register ^^^ BitVec.ofNat w value) := by
  induction n generalizing value register with
  | zero =>
    obtain rfl : value = 0 := Nat.lt_one_iff.mp small
    exact (BitVec.xor_zero).symm
  | succ n ih =>
    have half : value / 2 < 2 ^ n := by
      rw [Nat.pow_succ] at small
      omega
    have room : 2 ^ (n + 1) ≤ 2 ^ w := Nat.pow_le_pow_right (by decide) fits
    have even : shift poly (BitVec.ofNat w (2 * (value / 2))) = BitVec.ofNat w (value / 2) := by
      apply shift_even
      omega
    rw [bits, List.foldl_cons, ih half (by omega), feed, shifts, ofNat_split value, ← BitVec.xor_assoc,
      shift_xor poly (_ ^^^ _) (BitVec.ofNat w (2 * _)), even]

theorem feedByte_eq (fits : 8 ≤ w) (register : BitVec w) (byte : UInt8) :
    feedByte poly register byte = shifts poly 8 (register ^^^ BitVec.ofNat w byte.toNat) :=
  feed_bits poly byte.toNat_lt fits register

/-- The low byte of a register is looked up, the rest moves down. -/
theorem shifts_byte (register : BitVec w) :
    shifts poly 8 register = shifts poly 8 (register &&& BitVec.ofNat w 0xFF) ^^^ (register >>> 8) := by
  have mask (i : Nat) : (BitVec.ofNat w 0xFF).getLsbD i = (decide (i < w) && decide (i < 8)) := by
    rw [BitVec.getLsbD_ofNat]
    exact congrArg _ (Nat.testBit_two_pow_sub_one 8 i)
  have split : register = (register &&& BitVec.ofNat w 0xFF) ^^^ (register &&& ~~~ BitVec.ofNat w 0xFF) := by
    apply BitVec.eq_of_getLsbD_eq
    intro i inside
    rw [BitVec.getLsbD_xor, BitVec.getLsbD_and, BitVec.getLsbD_and, BitVec.getLsbD_not, decide_eq_true inside,
      Bool.true_and]
    cases register.getLsbD i with
    | false => rfl
    | true =>
      cases (BitVec.ofNat w 0xFF).getLsbD i with
      | false => rfl
      | true => rfl
  have clear : ∀ i < 8, (register &&& ~~~ BitVec.ofNat w 0xFF).getLsbD i = false := by
    intro i low
    rw [BitVec.getLsbD_and, BitVec.getLsbD_not, mask, decide_eq_true low, Bool.and_true, Bool.and_not_self, Bool.and_false]
  have rest : (register &&& ~~~ BitVec.ofNat w 0xFF) >>> 8 = register >>> 8 := by
    apply BitVec.eq_of_getLsbD_eq
    intro i _
    rw [BitVec.getLsbD_ushiftRight, BitVec.getLsbD_ushiftRight, BitVec.getLsbD_and, BitVec.getLsbD_not, mask,
      decide_eq_false (show ¬ 8 + i < 8 by omega), Bool.and_false, Bool.not_false, Bool.and_true]
    by_cases inside : 8 + i < w
    · rw [decide_eq_true inside, Bool.and_true]
    · rw [decide_eq_false inside, Bool.and_false, BitVec.getLsbD_of_ge _ _ (Nat.le_of_not_lt inside)]
  have whole := congrArg (shifts poly 8) split
  rwa [shifts_xor, shifts_clear poly clear, rest] at whole

/-- A byte of the message, by the table of all low bytes. -/
theorem feedByte_table (fits : 8 ≤ w) (register : BitVec w) (byte : UInt8) :
    feedByte poly register byte =
      shifts poly 8 ((register ^^^ BitVec.ofNat w byte.toNat) &&& BitVec.ofNat w 0xFF) ^^^ (register >>> 8) := by
  have gone : BitVec.ofNat w byte.toNat >>> 8 = 0#w := by
    apply BitVec.eq_of_toNat_eq
    rw [BitVec.toNat_ushiftRight, BitVec.toNat_ofNat, Nat.shiftRight_eq_div_pow]
    exact Nat.div_eq_of_lt (Nat.lt_of_le_of_lt (Nat.mod_le _ _) byte.toNat_lt)
  rw [feedByte_eq poly fits, shifts_byte, BitVec.ushiftRight_xor_distrib, gone, BitVec.xor_zero]

end Dropway.Lib.Crc
