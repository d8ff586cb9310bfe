import Mathlib.Algebra.Group.Nat.Defs
import Mathlib.Tactic.Common

/-! JavaScript's bitwise operators on integers: they work on 32 bits, and all but the
unsigned shift read their result as a signed number. -/

namespace Dropway.Lib.Bitwise

def int32 (a : Int) : BitVec 32 := BitVec.ofInt 32 a

def xor (a b : Int) : Int := (int32 a ^^^ int32 b).toInt

def and (a b : Int) : Int := (int32 a &&& int32 b).toInt

/-- `a >>> n` -/
def shiftRight (a : Int) (n : Nat) : Nat := (int32 a >>> n).toNat

@[simp] theorem int32_toInt (v : BitVec 32) : int32 v.toInt = v := BitVec.ofInt_toInt

@[simp] theorem int32_toNat (v : BitVec 32) : int32 v.toNat = v := by
  rw [int32, BitVec.ofInt_natCast, BitVec.ofNat_toNat, BitVec.setWidth_eq]

theorem int32_ofNat (n : Nat) : int32 n = BitVec.ofNat 32 n := BitVec.ofInt_natCast 32 n

theorem int32_xor (a b : Int) : int32 (xor a b) = int32 a ^^^ int32 b := int32_toInt _

theorem int32_and (a b : Int) : int32 (and a b) = int32 a &&& int32 b := int32_toInt _

theorem int32_shiftRight (a : Int) (n : Nat) : int32 (shiftRight a n) = int32 a >>> n := int32_toNat _

/-- Masks below the sign bit read alike signed and unsigned. -/
theorem and_toNat {a b : Int} (mask : (int32 b).toNat < 2 ^ 31) : (and a b).toNat = (int32 a &&& int32 b).toNat := by
  have small : (int32 a &&& int32 b).toNat < 2 ^ 31 := by
    rw [BitVec.toNat_and]
    exact Nat.lt_of_le_of_lt Nat.and_le_right mask
  rw [and, BitVec.toInt_eq_toNat_of_lt (by omega), Int.toNat_natCast]

end Dropway.Lib.Bitwise
