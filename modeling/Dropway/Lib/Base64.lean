import Dropway.Lib.Utf8

/-! The standard base64 encoding, with padding. The decoder passes over line breaks
and does not look at the bits that a padded group leaves over. -/

namespace Dropway.Lib.Base64

def symbol (n : Nat) : Char :=
  if n < 26 then Char.ofNat (n + 65)
  else if n < 52 then Char.ofNat (n + 71)
  else if n < 62 then Char.ofNat (n - 4)
  else if n = 62 then '+' else '/'

def value (c : Char) : Option Nat :=
  let n := c.toNat
  if 65 ≤ n ∧ n ≤ 90 then some (n - 65)
  else if 97 ≤ n ∧ n ≤ 122 then some (n - 71)
  else if 48 ≤ n ∧ n ≤ 57 then some (n + 4)
  else if c = '+' then some 62
  else if c = '/' then some 63
  else none

def encode : Bytes → Text
  | a :: b :: c :: rest =>
    symbol (a.toNat / 4) :: symbol (a.toNat % 4 * 16 + b.toNat / 16) ::
      symbol (b.toNat % 16 * 4 + c.toNat / 64) :: symbol (c.toNat % 64) :: encode rest
  | [a, b] =>
    [symbol (a.toNat / 4), symbol (a.toNat % 4 * 16 + b.toNat / 16), symbol (b.toNat % 16 * 4), '=']
  | [a] => [symbol (a.toNat / 4), symbol (a.toNat % 4 * 16), '=', '=']
  | [] => []

def decodeGroups : Text → Option Bytes
  | [] => some []
  | w :: x :: y :: z :: rest =>
    if z = '=' then
      if rest ≠ [] then none
      else if y = '=' then do
        let w ← value w
        let x ← value x
        return [UInt8.ofNat (w * 4 + x / 16)]
      else do
        let w ← value w
        let x ← value x
        let y ← value y
        return [UInt8.ofNat (w * 4 + x / 16), UInt8.ofNat (x % 16 * 16 + y / 4)]
    else do
      let w ← value w
      let x ← value x
      let y ← value y
      let z ← value z
      let more ← decodeGroups rest
      return UInt8.ofNat (w * 4 + x / 16) :: UInt8.ofNat (x % 16 * 16 + y / 4) ::
        UInt8.ofNat (y % 4 * 64 + z) :: more
  | _ => none

def isBreak (c : Char) : Bool := c = '\n' || c = '\r'

def decode (text : Text) : Option Bytes := decodeGroups (text.filter fun c => !isBreak c)

/-! ### The round trip -/

private structure Written (n : Nat) (c : Char) : Prop where
  value : value c = some n
  plain : c ≠ '='
  unbroken : isBreak c = false

private theorem symbol_written_all : ∀ n ∈ List.range 64,
    value (symbol n) = some n ∧ symbol n ≠ '=' ∧ isBreak (symbol n) = false := by decide

private theorem symbol_written {n : Nat} (small : n < 64) : Written n (symbol n) := by
  obtain ⟨value, plain, unbroken⟩ := symbol_written_all n (List.mem_range.mpr small)
  exact ⟨value, plain, unbroken⟩

private theorem byte_eq {byte : UInt8} {n : Nat} (same : n = byte.toNat) : UInt8.ofNat n = byte := by
  rw [same, UInt8.ofNat_toNat]

private theorem encode_unbroken (bytes : Bytes) : ∀ c ∈ encode bytes, isBreak c = false := by
  induction bytes using encode.induct with
  | case1 a b c rest ih =>
    have large := a.toNat_lt
    have middle := b.toNat_lt
    have small := c.toNat_lt
    intro d mem
    simp only [encode, List.mem_cons] at mem
    rcases mem with rfl | rfl | rfl | rfl | mem
    · exact (symbol_written (by omega)).unbroken
    · exact (symbol_written (by omega)).unbroken
    · exact (symbol_written (by omega)).unbroken
    · exact (symbol_written (by omega)).unbroken
    · exact ih d mem
  | case2 a b =>
    have large := a.toNat_lt
    have small := b.toNat_lt
    intro d mem
    simp only [encode, List.mem_cons, List.not_mem_nil, or_false] at mem
    rcases mem with rfl | rfl | rfl | rfl
    · exact (symbol_written (by omega)).unbroken
    · exact (symbol_written (by omega)).unbroken
    · exact (symbol_written (by omega)).unbroken
    · rfl
  | case3 a =>
    have small := a.toNat_lt
    intro d mem
    simp only [encode, List.mem_cons, List.not_mem_nil, or_false] at mem
    rcases mem with rfl | rfl | rfl | rfl
    · exact (symbol_written (by omega)).unbroken
    · exact (symbol_written (by omega)).unbroken
    · rfl
    · rfl
  | case4 =>
    intro d mem
    cases mem

private theorem decodeGroups_encode (bytes : Bytes) : decodeGroups (encode bytes) = some bytes := by
  induction bytes using encode.induct with
  | case1 a b c rest ih =>
    have large := a.toNat_lt
    have middle := b.toNat_lt
    have small := c.toNat_lt
    have w := symbol_written (show a.toNat / 4 < 64 by omega)
    have x := symbol_written (show a.toNat % 4 * 16 + b.toNat / 16 < 64 by omega)
    have y := symbol_written (show b.toNat % 16 * 4 + c.toNat / 64 < 64 by omega)
    have z := symbol_written (show c.toNat % 64 < 64 by omega)
    rw [encode, decodeGroups, if_neg z.plain, w.value, x.value, y.value, z.value, ih]
    simp only [Option.bind_eq_bind, Option.bind_some, Option.pure_def, Option.some.injEq, List.cons.injEq,
      and_true]
    exact ⟨byte_eq (by omega), byte_eq (by omega), byte_eq (by omega)⟩
  | case2 a b =>
    have large := a.toNat_lt
    have small := b.toNat_lt
    have w := symbol_written (show a.toNat / 4 < 64 by omega)
    have x := symbol_written (show a.toNat % 4 * 16 + b.toNat / 16 < 64 by omega)
    have y := symbol_written (show b.toNat % 16 * 4 < 64 by omega)
    rw [encode, decodeGroups, if_pos rfl, if_neg (not_not.mpr rfl), if_neg y.plain, w.value, x.value, y.value]
    simp only [Option.bind_eq_bind, Option.bind_some, Option.pure_def, Option.some.injEq, List.cons.injEq,
      and_true]
    exact ⟨byte_eq (by omega), byte_eq (by omega)⟩
  | case3 a =>
    have small := a.toNat_lt
    have w := symbol_written (show a.toNat / 4 < 64 by omega)
    have x := symbol_written (show a.toNat % 4 * 16 < 64 by omega)
    rw [encode, decodeGroups, if_pos rfl, if_neg (not_not.mpr rfl), if_pos rfl, w.value, x.value]
    simp only [Option.bind_eq_bind, Option.bind_some, Option.pure_def, Option.some.injEq, List.cons.injEq,
      and_true]
    exact byte_eq (by omega)
  | case4 => rfl

@[simp] theorem decode_encode (bytes : Bytes) : decode (encode bytes) = some bytes := by
  have kept : (encode bytes).filter (fun c => !isBreak c) = encode bytes := by
    apply List.filter_eq_self.mpr
    intro c mem
    rw [encode_unbroken bytes c mem]
    rfl
  rw [decode, kept, decodeGroups_encode]

end Dropway.Lib.Base64
