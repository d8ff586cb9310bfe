import Dropway.Lib.Runes

/-! How long bytes are once they were decoded and encoded again: every malformed
sequence becomes U+FFFD, which takes three bytes. -/

namespace Dropway.Lib.Utf8

/-! ### Malformed sequences -/

/-- A byte that no sequence starts with. -/
def stray (byte : UInt8) : List Nat := if (lead byte).1 = [replacement] then [1] else []

/-- The lengths of the malformed sequences; `seen` bytes of a sequence have been read. -/
def malformedFrom : Pending → Nat → Bytes → List Nat
  | pending, seen, [] => if pending.needed = 0 then [] else [seen]
  | pending, seen, byte :: rest =>
    match pending.needed with
    | 0 => stray byte ++ malformedFrom (lead byte).2 1 rest
    | more + 1 =>
      if pending.lower ≤ byte.toNat ∧ byte.toNat ≤ pending.upper then
        if more = 0 then malformedFrom {} 0 rest
        else malformedFrom { needed := more, point := pending.point * 64 + (byte.toNat - 0x80) } (seen + 1) rest
      else seen :: stray byte ++ malformedFrom (lead byte).2 1 rest

def malformed (bytes : Bytes) : List Nat := malformedFrom {} 0 bytes

/-- What the malformed sequences lack of the length of what replaces them. -/
def lacking (lengths : List Nat) : Nat := (lengths.map (3 - ·)).sum

@[simp] theorem lacking_nil : lacking [] = 0 := rfl

@[simp] theorem lacking_cons (n : Nat) (lengths : List Nat) : lacking (n :: lengths) = 3 - n + lacking lengths := rfl

@[simp] theorem lacking_append (lengths more : List Nat) :
    lacking (lengths ++ more) = lacking lengths + lacking more := by
  rw [lacking, List.map_append, List.sum_append]
  rfl

/-! ### Lengths -/

theorem utf8Size_ofNat {n : Nat} (valid : n.isValidChar) :
    (Char.ofNat n).utf8Size = if n ≤ 0x7F then 1 else if n ≤ 0x7FF then 2 else if n ≤ 0xFFFF then 3 else 4 := by
  have value : (Char.ofNat n).val.toNat = n := by
    rw [Char.ofNat, dif_pos valid]
    rfl
  simp only [Char.utf8Size, UInt32.le_iff_toNat_le, value]
  rfl

/-- A sequence that goes on with a byte between the bounds stands for a character of
as many bytes as it will have. -/
structure Reads (pending : Pending) (seen : Nat) : Prop where
  positive : 1 ≤ seen
  bounded : seen + pending.needed ≤ 4
  size : ∀ n, (pending.point * 64 + (pending.lower - 0x80)) * 64 ^ (pending.needed - 1) ≤ n →
    n < (pending.point * 64 + (pending.upper - 0x80) + 1) * 64 ^ (pending.needed - 1) →
    (Char.ofNat n).utf8Size = seen + pending.needed

private theorem lead_reads (byte : UInt8) : (lead byte).2.needed = 0 ∨ Reads (lead byte).2 1 := by
  have small := byte.toNat_lt
  unfold lead
  simp only
  generalize byte.toNat = b at small
  by_cases one : b < 0x80
  · rw [if_pos one]
    exact .inl rfl
  rw [if_neg one]
  by_cases two : 0xC2 ≤ b ∧ b ≤ 0xDF
  · rw [if_pos two]
    refine .inr ⟨le_refl 1, by simp only; omega, fun n least most => ?_⟩
    simp only [Nat.sub_self, Nat.pow_zero, Nat.mul_one] at least most
    rw [utf8Size_ofNat (.inl (by omega)), if_neg (by omega), if_pos (by omega)]
    rfl
  rw [if_neg two]
  by_cases three : 0xE0 ≤ b ∧ b ≤ 0xEF
  · rw [if_pos three]
    refine .inr ⟨le_refl 1, by simp only; omega, fun n least most => ?_⟩
    simp only [Nat.add_one_sub_one, Nat.pow_one] at least most
    have valid : n.isValidChar := by
      unfold Nat.isValidChar
      split at least <;> split at most <;> omega
    rw [utf8Size_ofNat valid, if_neg (by split at least <;> omega), if_neg (by split at least <;> omega),
      if_pos (by split at most <;> omega)]
    rfl
  rw [if_neg three]
  by_cases four : 0xF0 ≤ b ∧ b ≤ 0xF4
  · rw [if_pos four]
    refine .inr ⟨le_refl 1, by simp only; omega, fun n least most => ?_⟩
    simp only [Nat.add_one_sub_one] at least most
    have valid : n.isValidChar := by
      unfold Nat.isValidChar
      split at least <;> split at most <;> omega
    rw [utf8Size_ofNat valid, if_neg (by split at least <;> omega), if_neg (by split at least <;> omega),
      if_neg (by split at least <;> omega)]
    rfl
  · rw [if_neg four]
    exact .inl rfl

/-- A sequence that is not finished by the byte. -/
theorem Reads.more {pending : Pending} {seen more : Nat} (reads : Reads pending seen)
    (needed : pending.needed = more + 1) (unfinished : more ≠ 0) {b : Nat} (low : pending.lower ≤ b)
    (high : b ≤ pending.upper) : Reads { needed := more, point := pending.point * 64 + (b - 0x80) } (seen + 1) := by
  obtain ⟨positive, bounded, size⟩ := reads
  refine ⟨by omega, by simp only; omega, fun n least most => ?_⟩
  rw [needed] at bounded size
  have few : more = 1 ∨ more = 2 := by omega
  rcases few with one | two
  · subst one
    simp only [Nat.add_one_sub_one, Nat.sub_self, Nat.pow_zero, Nat.pow_one, Nat.mul_one] at size least most
    have total := size n (by omega) (by omega)
    rw [total, Nat.add_assoc]
  · subst two
    have square : 64 ^ 2 = 64 * 64 := by decide
    simp only [Nat.add_one_sub_one, Nat.pow_one, square, ← Nat.mul_assoc] at size least most
    have lower : (pending.point * 64 + (pending.lower - 0x80)) * 64 ≤
      (pending.point * 64 + (b - 0x80)) * 64 + (0x80 - 0x80) := by omega
    have upper : (pending.point * 64 + (b - 0x80)) * 64 + (0xBF - 0x80) + 1 ≤
      (pending.point * 64 + (pending.upper - 0x80) + 1) * 64 := by omega
    have total := size n ((Nat.mul_le_mul_right 64 lower).trans least)
      (most.trans_le (Nat.mul_le_mul_right 64 upper))
    rw [total, Nat.add_assoc]
    exact congrArg (seen + ·) (Nat.add_comm 2 1)

/-- A byte that finishes the sequence. -/
theorem Reads.last {pending : Pending} {seen : Nat} (reads : Reads pending seen) (needed : pending.needed = 1) {b : Nat}
    (low : pending.lower ≤ b) (high : b ≤ pending.upper) :
    (Char.ofNat (pending.point * 64 + (b - 0x80))).utf8Size = seen + 1 := by
  have size := reads.size
  simp only [needed, Nat.sub_self, Nat.pow_zero, Nat.mul_one] at size
  exact size _ (by omega) (by omega)

@[simp] theorem encode_length_cons (c : Char) (text : Text) :
    (encode (c :: text)).length = c.utf8Size + (encode text).length := by
  rw [encode_cons, List.length_append, String.length_utf8EncodeChar]

/-- What the first byte of a sequence is decoded to. -/
private theorem lead_length (byte : UInt8) : (encode (lead byte).1).length + (if (lead byte).2.needed = 0 then 0 else 1) =
    1 + lacking (stray byte) := by
  have small := byte.toNat_lt
  unfold stray lead
  simp only
  generalize byte.toNat = b at small
  by_cases one : b < 0x80
  · have plain : ¬ [Char.ofNat b] = [replacement] := by
      intro same
      have size := utf8Size_ofNat (.inl (by omega) : b.isValidChar)
      rw [(List.cons.inj same).1, if_pos (by omega)] at size
      exact absurd size (by decide)
    rw [if_pos one, if_neg plain, encode_length_cons, utf8Size_ofNat (.inl (by omega)), if_pos (by omega)]
    rfl
  rw [if_neg one]
  by_cases two : 0xC2 ≤ b ∧ b ≤ 0xDF
  · rw [if_pos two]
    rfl
  rw [if_neg two]
  by_cases three : 0xE0 ≤ b ∧ b ≤ 0xEF
  · rw [if_pos three]
    rfl
  rw [if_neg three]
  by_cases four : 0xF0 ≤ b ∧ b ≤ 0xF4
  · rw [if_pos four]
    rfl
  · rw [if_neg four]
    rfl

theorem length_encode_decodeFrom (pending : Pending) (seen : Nat) (bytes : Bytes)
    (reads : pending.needed = 0 ∨ Reads pending seen) :
    (encode (decodeFrom pending bytes)).length =
      (if pending.needed = 0 then 0 else seen) + bytes.length + lacking (malformedFrom pending seen bytes) := by
  induction bytes generalizing pending seen with
  | nil =>
    rw [decodeFrom, malformedFrom]
    rcases reads with done | reads
    · rw [if_pos done, if_pos done, if_pos done]
      rfl
    · by_cases done : pending.needed = 0
      · rw [if_pos done, if_pos done, if_pos done]
        rfl
      · rw [if_neg done, if_neg done, if_neg done]
        have bounded := reads.bounded
        have size : (encode [replacement]).length = 3 := by decide
        rw [size, lacking_cons, lacking_nil, List.length_nil]
        omega
  | cons byte rest ih =>
    have leads := ih (lead byte).2 1 (lead_reads byte)
    have first := lead_length byte
    cases needed : pending.needed with
    | zero =>
      rw [decodeFrom, malformedFrom, needed]
      simp only [encode_append, List.length_append, lacking_append, List.length_cons, if_pos]
      omega
    | succ more =>
      have started : Reads pending seen := reads.resolve_left (by omega)
      rw [decodeFrom, malformedFrom, needed]
      simp only
      by_cases inside : pending.lower ≤ byte.toNat ∧ byte.toNat ≤ pending.upper
      · rw [if_pos inside, if_pos inside]
        by_cases last : more = 0
        · have size := started.last (by omega) inside.1 inside.2
          have others := ih {} 0 (.inl rfl)
          rw [if_pos last, if_pos last, encode_length_cons, size, others]
          simp only [List.length_cons, if_pos, if_neg (Nat.succ_ne_zero more)]
          omega
        · have others := ih _ _ (.inr (started.more needed last inside.1 inside.2))
          rw [if_neg last, if_neg last, others]
          simp only [List.length_cons, if_neg last, if_neg (Nat.succ_ne_zero more)]
          omega
      · have bounded := started.bounded
        have size : replacement.utf8Size = 3 := by decide
        rw [if_neg inside, if_neg inside]
        simp only [List.cons_append, encode_length_cons, encode_append, List.length_append, lacking_cons, lacking_append,
          List.length_cons, if_neg (Nat.succ_ne_zero more), size]
        omega

/-- Decoding and encoding again adds what the malformed sequences lack. -/
theorem length_encode_decode (bytes : Bytes) :
    (encode (decode bytes)).length = bytes.length + lacking (malformed bytes) := by
  have total := length_encode_decodeFrom {} 0 bytes (.inl rfl)
  rwa [if_pos rfl, Nat.zero_add] at total

/-! ### Bodies -/

def byteOrderMark : Bytes := [0xEF, 0xBB, 0xBF]

/-- A body as long as its text: it has no byte order mark and what is malformed is three
bytes at a time, or the lengths make up for the mark. -/
def LengthKept (bytes : Bytes) : Prop :=
  lacking (malformed (if byteOrderMark.isPrefixOf bytes then bytes.drop 3 else bytes)) =
    if byteOrderMark.isPrefixOf bytes then 3 else 0

instance (bytes : Bytes) : Decidable (LengthKept bytes) := inferInstanceAs (Decidable (_ = _))

theorem length_bodyText_iff (bytes : Bytes) :
    (encode (bodyText bytes)).length = bytes.length ↔ LengthKept bytes := by
  unfold bodyText LengthKept
  rw [length_encode_decode]
  change _ + lacking (malformed (if byteOrderMark.isPrefixOf bytes then bytes.drop 3 else bytes)) = _ ↔ _
  by_cases marked : byteOrderMark.isPrefixOf bytes = true
  · have long := (List.isPrefixOf_iff_prefix.mp marked).length_le
    have three : byteOrderMark.length = 3 := rfl
    simp only [marked, if_true]
    have cut : (if ([0xEF, 0xBB, 0xBF] : Bytes).isPrefixOf bytes then bytes.drop 3 else bytes) = bytes.drop 3 :=
      if_pos marked
    rw [cut, List.length_drop]
    omega
  · have whole : (if ([0xEF, 0xBB, 0xBF] : Bytes).isPrefixOf bytes then bytes.drop 3 else bytes) = bytes :=
      if_neg marked
    simp only [marked, if_false, Bool.false_eq_true]
    rw [whole]
    omega

end Dropway.Lib.Utf8
