import Dropway.Lib.Utf8

/-! Byte strings that are read rune by rune: a byte that starts no character
is read on its own. -/

namespace Dropway.Lib.Utf8

/-- The character that the bytes start with. -/
def firstRune (bytes : Bytes) : Option Char := bytes.toByteArray.utf8DecodeChar? 0

/-- `skip` bytes belong to the character before; `none` is a byte of none. -/
def runesFrom : Nat → Bytes → List (Option Char)
  | _, [] => []
  | skip + 1, _ :: rest => runesFrom skip rest
  | 0, byte :: rest =>
    match firstRune (byte :: rest) with
    | some c => some c :: runesFrom (c.utf8Size - 1) rest
    | none => none :: runesFrom 0 rest

def runes (bytes : Bytes) : List (Option Char) := runesFrom 0 bytes

/-- The bytes one by one, for what only ASCII can match. -/
def latin1 (bytes : Bytes) : Text := bytes.map fun byte => Char.ofNat byte.toNat

/-- What the bytes read as, with U+FFFD for each byte of no character. -/
def runeText (bytes : Bytes) : Text := (runes bytes).map fun rune => rune.getD replacement

/-- The bytes of some text. -/
def Valid (bytes : Bytes) : Prop := encode (runeText bytes) = bytes

instance (bytes : Bytes) : Decidable (Valid bytes) := inferInstanceAs (Decidable (_ = _))

@[simp] theorem encode_nil : encode [] = [] := rfl

@[simp] theorem encode_cons (c : Char) (text : Text) :
    encode (c :: text) = String.utf8EncodeChar c ++ encode text := List.flatMap_cons

@[simp] theorem encode_append (text more : Text) : encode (text ++ more) = encode text ++ encode more :=
  List.flatMap_append

@[simp] theorem runeText_nil : runeText [] = [] := rfl

theorem runeText_eq_nil {bytes : Bytes} : runeText bytes = [] ↔ bytes = [] := by
  refine ⟨fun blank => ?_, fun same => same ▸ rfl⟩
  cases bytes with
  | nil => rfl
  | cons byte rest =>
    simp only [runeText, runes, runesFrom, List.map_eq_nil_iff] at blank
    split at blank <;> cases blank

theorem firstRune_encode (c : Char) (rest : Bytes) :
    firstRune (String.utf8EncodeChar c ++ rest) = some c := by
  rw [firstRune, List.toByteArray_append]
  exact ByteArray.utf8DecodeChar?_utf8EncodeChar_append

private theorem runesFrom_skip (front rest : Bytes) : runesFrom front.length (front ++ rest) = runesFrom 0 rest := by
  induction front with
  | nil => rfl
  | cons byte front ih => exact ih

@[simp] theorem runes_encode (text : Text) : runes (encode text) = text.map some := by
  induction text with
  | nil => rfl
  | cons c rest ih =>
    have size := String.length_utf8EncodeChar c
    have first := firstRune_encode c (encode rest)
    have positive := Char.utf8Size_pos c
    cases bytes : String.utf8EncodeChar c with
    | nil =>
      rw [bytes, List.length_nil] at size
      omega
    | cons byte more =>
      rw [bytes, List.cons_append] at first
      rw [bytes, List.length_cons] at size
      have left : c.utf8Size - 1 = more.length := by omega
      rw [encode_cons, bytes, List.cons_append, runes, runesFrom, first]
      simp only [left, runesFrom_skip, List.map_cons]
      exact congrArg _ ih

@[simp] theorem runeText_encode (text : Text) : runeText (encode text) = text := by
  simp [runeText]

theorem valid_encode (text : Text) : Valid (encode text) := by
  rw [Valid, runeText_encode]

theorem encode_injective {text more : Text} (same : encode text = encode more) : text = more := by
  rw [← runeText_encode text, same, runeText_encode]

/-- The encoding of one text starts with that of another only where the texts do. -/
theorem encode_prefix {front text : Text} (starts : encode front <+: encode text) : front <+: text := by
  induction front generalizing text with
  | nil => exact List.nil_prefix
  | cons c front ih =>
    obtain ⟨back, whole⟩ := starts
    rw [encode_cons, List.append_assoc] at whole
    have first := firstRune_encode c (encode front ++ back)
    cases text with
    | nil =>
      rw [whole] at first
      cases first
    | cons d rest =>
      rw [whole, encode_cons, firstRune_encode, Option.some_inj] at first
      subst first
      rw [encode_cons, List.append_cancel_left_eq] at whole
      exact List.cons_prefix_cons.mpr ⟨rfl, ih ⟨back, whole⟩⟩

/-- A cut of an encoding is valid exactly where it falls between two characters. -/
theorem valid_take {text : Text} {n : Nat} :
    Valid ((encode text).take n) ↔ ∃ front, front <+: text ∧ encode front = (encode text).take n := by
  constructor
  · intro valid
    refine ⟨_, encode_prefix ?_, valid⟩
    rw [valid]
    exact List.take_prefix ..
  · intro cut
    obtain ⟨front, -, same⟩ := cut
    rw [← same]
    exact valid_encode front

private theorem decodeFrom_lead (byte : UInt8) (rest : Bytes) :
    decodeFrom {} (byte :: rest) = (lead byte).1 ++ decodeFrom (lead byte).2 rest := rfl

private theorem decodeFrom_last {point lower upper b : Nat} (small : b < 256) (low : lower ≤ b)
    (high : b ≤ upper) (rest : Bytes) : decodeFrom ⟨1, point, lower, upper⟩ (UInt8.ofNat b :: rest) =
      Char.ofNat (point * 64 + (b - 0x80)) :: decodeFrom {} rest := by
  have byte : (UInt8.ofNat b).toNat = b := by
    rw [UInt8.toNat_ofNat']
    omega
  simp only [decodeFrom, byte, if_pos (And.intro low high), if_true]

private theorem decodeFrom_more {more point lower upper b : Nat} (small : b < 256) (low : lower ≤ b)
    (high : b ≤ upper) (rest : Bytes) : decodeFrom ⟨more + 2, point, lower, upper⟩ (UInt8.ofNat b :: rest) =
      decodeFrom { needed := more + 1, point := point * 64 + (b - 0x80) } rest := by
  have byte : (UInt8.ofNat b).toNat = b := by
    rw [UInt8.toNat_ofNat']
    omega
  simp only [decodeFrom, byte, if_pos (And.intro low high), Nat.add_eq_zero_iff, Nat.one_ne_zero, and_false,
    if_false]

private theorem decodeFrom_char (c : Char) (rest : Bytes) :
    decodeFrom {} (String.utf8EncodeChar c ++ rest) = c :: decodeFrom {} rest := by
  have valid : c.toNat < 0xD800 ∨ (0xDFFF < c.toNat ∧ c.toNat < 0x110000) := c.valid
  have back : Char.ofNat c.toNat = c := Char.ofNat_toNat c
  rw [String.utf8EncodeChar]
  simp only [show c.val.toNat = c.toNat from rfl]
  generalize c.toNat = v at valid back
  subst back
  split
  · rename_i one
    have byte : (UInt8.ofNat v).toNat = v := by
      rw [UInt8.toNat_ofNat']
      omega
    simp only [List.cons_append, List.nil_append, decodeFrom_lead, lead, byte,
      if_pos (show v < 0x80 by omega)]
  split
  · have byte : (UInt8.ofNat (v / 64 % 32 + 192)).toNat = v / 64 + 192 := by
      rw [UInt8.toNat_ofNat']
      omega
    simp only [List.cons_append, List.nil_append, decodeFrom_lead, lead, byte]
    rw [if_neg (by omega), if_pos (by omega)]
    refine (decodeFrom_last (by omega) (by omega) (by omega) rest).trans ?_
    exact congrArg (fun n => Char.ofNat n :: decodeFrom {} rest) (by omega)
  split
  · have byte : (UInt8.ofNat (v / 4096 % 16 + 224)).toNat = v / 4096 + 224 := by
      rw [UInt8.toNat_ofNat']
      omega
    simp only [List.cons_append, List.nil_append, decodeFrom_lead, lead, byte]
    rw [if_neg (by omega), if_neg (by omega), if_pos (by omega)]
    refine (decodeFrom_more (by omega) (by split <;> omega) (by split <;> omega) _).trans ?_
    refine (decodeFrom_last (by omega) (by omega) (by omega) rest).trans ?_
    exact congrArg (fun n => Char.ofNat n :: decodeFrom {} rest) (by omega)
  · have byte : (UInt8.ofNat (v / 262144 % 8 + 240)).toNat = v / 262144 + 240 := by
      rw [UInt8.toNat_ofNat']
      omega
    simp only [List.cons_append, List.nil_append, decodeFrom_lead, lead, byte]
    rw [if_neg (by omega), if_neg (by omega), if_neg (by omega), if_pos (by omega)]
    refine (decodeFrom_more (by omega) (by split <;> omega) (by split <;> omega) _).trans ?_
    refine (decodeFrom_more (by omega) (by omega) (by omega) _).trans ?_
    refine (decodeFrom_last (by omega) (by omega) (by omega) rest).trans ?_
    exact congrArg (fun n => Char.ofNat n :: decodeFrom {} rest) (by omega)

@[simp] theorem decode_encode (text : Text) : decode (encode text) = text := by
  rw [decode]
  induction text with
  | nil => rfl
  | cons c rest ih => rw [encode_cons, decodeFrom_char, ih]

end Dropway.Lib.Utf8
