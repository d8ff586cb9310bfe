import Dropway.Lib.Runes

/-! ASCII characters in the UTF-8 of a text: each is one byte, and no other
character has that byte. -/

namespace Dropway.Lib.Utf8

variable {a c : Char} {text : Text}

def byteOf (c : Char) : UInt8 := UInt8.ofNat c.toNat

theorem encodeChar_ascii (small : c.toNat < 0x80) : String.utf8EncodeChar c = [byteOf c] := by
  rw [String.utf8EncodeChar]
  simp only [show c.val.toNat = c.toNat from rfl]
  rw [if_pos (by omega)]
  rfl

theorem encodeChar_high (large : 0x80 ≤ c.toNat) : ∀ byte ∈ String.utf8EncodeChar c, 0x80 ≤ byte.toNat := by
  have valid : c.toNat < 0xD800 ∨ (0xDFFF < c.toNat ∧ c.toNat < 0x110000) := c.valid
  intro byte mem
  rw [String.utf8EncodeChar] at mem
  simp only [show c.val.toNat = c.toNat from rfl] at mem
  rw [if_neg (by omega)] at mem
  split at mem
  · simp only [List.mem_cons, List.not_mem_nil, or_false] at mem
    rcases mem with rfl | rfl <;> (rw [UInt8.toNat_ofNat']; omega)
  split at mem
  · simp only [List.mem_cons, List.not_mem_nil, or_false] at mem
    rcases mem with rfl | rfl | rfl <;> (rw [UInt8.toNat_ofNat']; omega)
  · simp only [List.mem_cons, List.not_mem_nil, or_false] at mem
    rcases mem with rfl | rfl | rfl | rfl <;> (rw [UInt8.toNat_ofNat']; omega)

theorem encodeChar_ne_nil (c : Char) : String.utf8EncodeChar c ≠ [] := by
  intro blank
  have size := String.length_utf8EncodeChar c
  have positive := Char.utf8Size_pos c
  rw [blank, List.length_nil] at size
  omega

theorem byteOf_toNat (small : a.toNat < 0x80) : (byteOf a).toNat = a.toNat := by
  rw [byteOf, UInt8.toNat_ofNat']
  omega

theorem byteOf_mem_encodeChar (small : a.toNat < 0x80) : byteOf a ∈ String.utf8EncodeChar c ↔ c = a := by
  constructor
  · intro mem
    by_cases ascii : c.toNat < 0x80
    · rw [encodeChar_ascii ascii, List.mem_singleton] at mem
      apply Char.toNat_inj.mp
      rw [← byteOf_toNat ascii, ← byteOf_toNat small, mem]
    · have high := encodeChar_high (by omega) _ mem
      rw [byteOf_toNat small] at high
      omega
  · rintro rfl
    rw [encodeChar_ascii small]
    exact List.mem_singleton_self _

theorem byteOf_mem_encode (small : a.toNat < 0x80) : byteOf a ∈ encode text ↔ a ∈ text := by
  rw [encode, List.mem_flatMap]
  constructor
  · rintro ⟨c, mem, here⟩
    exact (byteOf_mem_encodeChar small).mp here ▸ mem
  · exact fun mem => ⟨a, mem, (byteOf_mem_encodeChar small).mpr rfl⟩

/-- A byte test that agrees with a test of characters. -/
structure Agrees (byte : UInt8 → Bool) (char : Char → Bool) : Prop where
  passes : ∀ c, char c = true → ∀ b ∈ String.utf8EncodeChar c, byte b = true
  fails : ∀ c, char c = false → ∀ b ∈ (String.utf8EncodeChar c).head?, byte b = false

theorem Agrees.takeWhile {byte : UInt8 → Bool} {char : Char → Bool} (agrees : Agrees byte char) (text : Text) :
    (encode text).takeWhile byte = encode (text.takeWhile char) := by
  induction text with
  | nil => rfl
  | cons c rest ih =>
    rw [encode_cons]
    cases test : char c with
    | true =>
      rw [List.takeWhile_append_of_pos (agrees.passes c test), ih, List.takeWhile_cons_of_pos test,
        encode_cons]
    | false =>
      rw [List.takeWhile_cons_of_neg (by simp [test])]
      cases bytes : String.utf8EncodeChar c with
      | nil => exact absurd bytes (encodeChar_ne_nil c)
      | cons b more =>
        have stops := agrees.fails c test b (by rw [bytes]; rfl)
        rw [List.cons_append, List.takeWhile_cons_of_neg (by simp [stops]), encode_nil]

theorem Agrees.dropWhile {byte : UInt8 → Bool} {char : Char → Bool} (agrees : Agrees byte char) (text : Text) :
    (encode text).dropWhile byte = encode (text.dropWhile char) := by
  have whole := List.takeWhile_append_dropWhile (p := byte) (l := encode text)
  have parts := List.takeWhile_append_dropWhile (p := char) (l := text)
  refine List.append_cancel_left (?_ : (encode text).takeWhile byte ++ _ = (encode text).takeWhile byte ++ _)
  rw [whole, agrees.takeWhile, ← encode_append, parts]

theorem agrees_ne (small : a.toNat < 0x80) : Agrees (fun b => decide (b ≠ byteOf a)) (fun c => decide (c ≠ a)) where
  passes c differs b mem := by
    apply decide_eq_true
    rintro rfl
    exact of_decide_eq_true differs ((byteOf_mem_encodeChar small).mp mem)
  fails c same b head := by
    have equal : c = a := by simpa using same
    rw [equal, encodeChar_ascii small] at head
    cases head
    simp

theorem agrees_eq (small : a.toNat < 0x80) : Agrees (fun b => decide (b = byteOf a)) (fun c => decide (c = a)) where
  passes c same b mem := by
    rw [of_decide_eq_true same, encodeChar_ascii small] at mem
    exact decide_eq_true (List.mem_singleton.mp mem)
  fails c differs b head := by
    apply decide_eq_false
    rintro rfl
    exact of_decide_eq_false differs ((byteOf_mem_encodeChar small).mp (List.mem_of_mem_head? head))

theorem Agrees.and {byte byte' : UInt8 → Bool} {char char' : Char → Bool} (first : Agrees byte char)
    (second : Agrees byte' char') : Agrees (fun b => byte b && byte' b) (fun c => char c && char' c) where
  passes c both b mem := by
    rw [Bool.and_eq_true] at both ⊢
    exact ⟨first.passes c both.1 b mem, second.passes c both.2 b mem⟩
  fails c either b head := by
    rw [Bool.and_eq_false_iff] at either ⊢
    exact either.imp (fun no => first.fails c no b head) fun no => second.fails c no b head

private theorem splitOn_prepend {sep : UInt8} {front : Bytes} (free : sep ∉ front) (back : Bytes) :
    (front ++ back).splitOn sep = (back.splitOn sep).modifyHead (front ++ ·) := by
  induction front with
  | nil =>
    rw [List.nil_append]
    cases back.splitOn sep <;> rfl
  | cons byte front ih =>
    have here : (byte == sep) = false := beq_eq_false_iff_ne.mpr fun same => free (same ▸ List.mem_cons_self)
    rw [List.cons_append, List.splitOn_cons_eq_if_modifyHead, here,
      ih fun later => free (List.mem_cons_of_mem _ later)]
    cases back.splitOn sep <;> rfl

theorem splitOn_encode (small : a.toNat < 0x80) (text : Text) :
    (encode text).splitOn (byteOf a) = (text.splitOn a).map encode := by
  induction text with
  | nil => rfl
  | cons c rest ih =>
    rw [encode_cons, List.splitOn_cons_eq_if_modifyHead]
    by_cases same : c = a
    · subst same
      rw [encodeChar_ascii small, List.cons_append, List.nil_append, List.splitOn_cons_eq_if_modifyHead,
        beq_self_eq_true, beq_self_eq_true, if_pos rfl, if_pos rfl, ih]
      rfl
    · have free : byteOf a ∉ String.utf8EncodeChar c := fun mem => same ((byteOf_mem_encodeChar small).mp mem)
      rw [splitOn_prepend free, ih, beq_eq_false_iff_ne.mpr same]
      cases rest.splitOn a with
      | nil => rfl
      | cons first more => simp [List.modifyHead]

theorem getLast_encode (small : a.toNat < 0x80) (text : Text) :
    (encode text).getLast? = some (byteOf a) ↔ text.getLast? = some a := by
  rcases List.eq_nil_or_concat text with rfl | ⟨front, c, rfl⟩
  · simp
  rw [List.concat_eq_append, encode_append, List.getLast?_concat, Option.some.injEq, encode_cons, encode_nil, List.append_nil,
    List.getLast?_append_of_ne_nil _ (encodeChar_ne_nil c)]
  constructor
  · intro last
    exact (byteOf_mem_encodeChar small).mp (List.mem_of_getLast? last)
  · rintro rfl
    rw [encodeChar_ascii small]
    rfl

theorem head_encode (small : a.toNat < 0x80) : (encode text).head? = some (byteOf a) ↔ text.head? = some a := by
  cases text with
  | nil => exact ⟨(fun head => by cases head), (fun head => by cases head)⟩
  | cons c rest =>
    obtain ⟨b, more, bytes⟩ := List.exists_cons_of_ne_nil (encodeChar_ne_nil c)
    rw [encode_cons, bytes, List.cons_append, List.head?_cons, List.head?_cons, Option.some.injEq, Option.some.injEq]
    constructor
    · rintro rfl
      exact (byteOf_mem_encodeChar small).mp (bytes ▸ List.mem_cons_self)
    · rintro rfl
      rw [encodeChar_ascii small] at bytes
      exact (List.cons.inj bytes).1.symm

/-- A test that only ASCII passes. -/
theorem any_encode {test : UInt8 → Bool} (ascii : ∀ b, test b = true → b.toNat < 0x80) (text : Text) :
    (encode text).any test = text.any fun c => decide (c.toNat < 0x80) && test (byteOf c) := by
  induction text with
  | nil => rfl
  | cons c text ih =>
    rw [encode_cons, List.any_append, ih, List.any_cons]
    by_cases small : c.toNat < 0x80
    · rw [encodeChar_ascii small, List.any_cons, List.any_nil, Bool.or_false, decide_eq_true small, Bool.true_and]
    · have none : (String.utf8EncodeChar c).any test = false := by
        refine List.any_eq_false.mpr fun b mem passes => ?_
        have high := encodeChar_high (Nat.le_of_not_lt small) b mem
        have low := ascii b passes
        omega
      rw [none, decide_eq_false small, Bool.false_and]

theorem encode_eq_nil : encode text = [] ↔ text = [] := by
  refine ⟨fun blank => ?_, fun same => same ▸ rfl⟩
  rw [← encode_nil] at blank
  exact encode_injective blank

end Dropway.Lib.Utf8
