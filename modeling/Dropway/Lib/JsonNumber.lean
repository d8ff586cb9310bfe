import Dropway.Lib.JsonRead
import Mathlib.Algebra.Order.Field.Basic
import Mathlib.Data.List.TakeWhile
import Mathlib.Data.Rat.Floor
import Mathlib.Tactic.FieldSimp
import Mathlib.Tactic.Ring

/-! Whole numbers in JSON texts. Below 2⁵³ every one of them is a double, so that
JavaScript reads what was written. -/

namespace Dropway.Lib.JsonText

theorem literalValue_decimal (n : Nat) : literalValue (decimal n) = n := by
  obtain ⟨filled, digits⟩ := decimal_digits n
  have value := natValue_decimal n
  have unsigned : (decimal n).head? ≠ some '-' := by
    intro minus
    have digit := digits '-' (List.mem_of_mem_head? minus)
    cases digit
  have whole : (decimal n).takeWhile Char.isDigit = decimal n :=
    List.takeWhile_eq_self_iff.mpr digits
  have exponent : intValue [] = 0 := rfl
  simp only [literalValue, if_neg unsigned, whole, List.drop_length, List.dropWhile_nil, List.tail_nil,
    exponent, List.head?_nil, reduceCtorEq, if_false, List.append_nil, value, List.length_nil, Nat.cast_zero,
    sub_zero, zpow_zero, mul_one]

theorem roundHalfEven_intCast (n : Int) : roundHalfEven n = n := by
  simp only [roundHalfEven, Rat.floor_intCast, sub_self]
  rw [if_pos (.inl (by norm_num))]

private theorem ulpExponent_natCast {n : Nat} (positive : n ≠ 0) :
    ulpExponent n = max ((Nat.log2 n : Int) - 52) (-1074) := by
  have log : (Nat.log2 (n : Rat).num.natAbs : Int) - Nat.log2 (n : Rat).den = Nat.log2 n := by
    have one : Nat.log2 1 = 0 := by decide
    rw [Rat.num_natCast, Rat.den_natCast, Int.natAbs_natCast, one, Nat.cast_zero, sub_zero]
  have power : (2 : Rat) ^ ((Nat.log2 (n : Rat).num.natAbs : Int) - Nat.log2 (n : Rat).den) ≤ n := by
    rw [log, zpow_natCast]
    exact_mod_cast Nat.log2_self_le positive
  simp only [ulpExponent]
  rw [if_pos power, log]

/-- A whole number below 2⁵³ is a double. -/
theorem nearestDouble_natCast {n : Nat} (small : n < 2 ^ 53) : nearestDouble n = some (n : Rat) := by
  by_cases zero : n = 0
  · rw [zero]
    rfl
  have positive : (n : Rat) ≠ 0 := Nat.cast_ne_zero.mpr zero
  have above : ¬ (n : Rat) < 0 := not_lt.mpr (Nat.cast_nonneg n)
  have log : Nat.log2 n ≤ 52 := by
    have below : Nat.log2 n < 53 := (Nat.log2_lt zero).mpr small
    omega
  -- The unit in the last place divides one.
  obtain ⟨k, unit⟩ : ∃ k : Nat, ulpExponent n = -(k : Int) := by
    rw [ulpExponent_natCast zero]
    exact ⟨(-(max ((Nat.log2 n : Int) - 52) (-1074))).toNat, by omega⟩
  have scaled : (n : Rat) / 2 ^ (-(k : Int)) = ((n * 2 ^ k : Int) : Rat) := by
    rw [zpow_neg, zpow_natCast, div_inv_eq_mul]
    push_cast
    rfl
  have back : ((n * 2 ^ k : Int) : Rat) * 2 ^ (-(k : Int)) = n := by
    rw [zpow_neg, zpow_natCast]
    push_cast
    field_simp
  have finite : ¬ (2 : Rat) ^ (1024 : Nat) ≤ n := by
    refine not_le.mpr (lt_of_lt_of_le (b := (2 : Rat) ^ 53) (by exact_mod_cast small) ?_)
    exact pow_le_pow_right₀ (by norm_num) (by norm_num)
  simp only [nearestDouble, if_neg positive, if_neg above, unit, scaled, roundHalfEven_intCast, back,
    if_neg finite]

theorem roundHalfEven_nonneg {q : Rat} (above : 0 ≤ q) : 0 ≤ roundHalfEven q := by
  have floor : 0 ≤ q.floor := Rat.le_floor_iff.mpr above
  simp only [roundHalfEven]
  split
  · exact floor
  · omega

theorem nearestDouble_nonneg {n : Nat} {q : Rat} (near : nearestDouble n = some q) : 0 ≤ q := by
  have above : ¬ (n : Rat) < 0 := not_lt.mpr (Nat.cast_nonneg n)
  simp only [nearestDouble, if_neg above] at near
  split at near
  · cases near
    exact le_refl 0
  split at near
  · cases near
  · cases near
    have unit : (0 : Rat) ≤ 2 ^ ulpExponent n := zpow_nonneg (by norm_num) _
    have scaled := roundHalfEven_nonneg (div_nonneg (Nat.cast_nonneg n) unit)
    exact mul_nonneg (Int.cast_nonneg scaled) unit

end Dropway.Lib.JsonText
