import Dropway.Lib.FormQuery
import Dropway.Lib.Reference

/-! What percent-encoding writes is decoded to what was written, whichever characters
it leaves as they are. -/

namespace Dropway.Lib.Uri

/-! ### One character -/

private def octets (bytes : Bytes) : List Piece := bytes.map fun byte => .octet byte.toNat

private theorem pieces_octets (bytes : Bytes) (rest : Text) :
    pieces ((bytes.flatMap fun byte => ['%', hexDigit (byte.toNat / 16), hexDigit (byte.toNat % 16)]) ++ rest) =
      (pieces rest).map (octets bytes ++ ·) := by
  have digit : ∀ value < 16, hexValue (hexDigit value) = some value := by decide
  induction bytes with
  | nil =>
    change pieces rest = (pieces rest).map fun read => read
    rw [Option.map_id']
  | cons byte bytes ih =>
    have small := byte.toNat_lt
    have value : hexByte (hexDigit (byte.toNat / 16)) (hexDigit (byte.toNat % 16)) = some byte.toNat := by
      unfold hexByte
      rw [digit _ (by omega), digit _ (by omega)]
      exact congrArg some (Nat.div_add_mod' byte.toNat 16)
    rw [List.flatMap_cons]
    simp only [List.cons_append, List.nil_append, pieces, value, ih, octets, List.map_cons]
    cases pieces rest <;> rfl

private theorem assemble_last (c : Char) {missing point least : Nat} {b : Nat} (low : 0x80 ≤ b) (high : b ≤ 0xBF)
    (one : missing = 1) (value : c.toNat = point * 64 + (b - 0x80)) (shortest : least ≤ c.toNat) (rest : List Piece) :
    assembleFrom ⟨missing, point, least⟩ (.octet b :: rest) = (assembleFrom {} rest).map (c :: ·) := by
  subst one
  have valid : c.toNat.isValidChar := c.valid
  have read : scalar least (point * 64 + (b - 0x80)) = some c := by
    rw [scalar, ← value, if_pos ⟨shortest, valid⟩, Char.ofNat_toNat]
  simp only [assembleFrom, Sequence.read, Nat.one_ne_zero, if_false, continuation, if_pos (And.intro low high),
    Option.map_some, Nat.sub_self, if_true, read, Option.bind_some]

private theorem assemble_more {more point least : Nat} {b : Nat} (low : 0x80 ≤ b) (high : b ≤ 0xBF) (rest : List Piece) :
    assembleFrom ⟨more + 2, point, least⟩ (.octet b :: rest) =
      assembleFrom ⟨more + 1, point * 64 + (b - 0x80), least⟩ rest := by
  simp only [assembleFrom, Sequence.read, Nat.add_eq_zero_iff, OfNat.ofNat_ne_zero, and_false, if_false, continuation,
    if_pos (And.intro low high), Option.map_some]
  have left : more + 2 - 1 = more + 1 := rfl
  rw [left, if_neg (Nat.succ_ne_zero more)]

private theorem assemble_first {b : Nat} (rest : List Piece) {start : Sequence} (leads : leadOctet b = some start)
    (unfinished : start.missing ≠ 0) : assembleFrom {} (.octet b :: rest) = assembleFrom start rest := by
  simp only [assembleFrom, Sequence.read, if_true, leads, if_neg unfinished]

/-- The octets of a character are read as that character. -/
private theorem assembleFrom_octets (c : Char) (rest : List Piece) :
    assembleFrom {} (octets (String.utf8EncodeChar c) ++ rest) = (assembleFrom {} rest).map (c :: ·) := by
  have valid : c.toNat < 0xD800 ∨ (0xDFFF < c.toNat ∧ c.toNat < 0x110000) := c.valid
  have byte {n : Nat} (small : n < 256) : (UInt8.ofNat n).toNat = n := by
    rw [UInt8.toNat_ofNat']
    omega
  rw [String.utf8EncodeChar]
  simp only [show c.val.toNat = c.toNat from rfl]
  split
  · rename_i one
    have ascii : c.toNat < 0x80 := by omega
    have read : scalar 0 c.toNat = some c := by
      rw [scalar, if_pos ⟨Nat.zero_le _, c.valid⟩, Char.ofNat_toNat]
    simp only [octets, List.map_cons, List.map_nil, List.cons_append, List.nil_append, byte (show c.toNat < 256 by omega),
      assembleFrom, Sequence.read, if_true, leadOctet, if_pos ascii, read, Option.bind_some]
  split
  · have leads : leadOctet (c.toNat / 64 % 32 + 192) = some ⟨1, c.toNat / 64, 0x80⟩ := by
      rw [leadOctet, if_neg (by omega), if_pos (by omega)]
      exact congrArg (fun n => some (Sequence.mk 1 n 0x80)) (by omega)
    simp only [octets, List.map_cons, List.map_nil, List.cons_append, List.nil_append,
      byte (show c.toNat / 64 % 32 + 192 < 256 by omega), byte (show c.toNat % 64 + 128 < 256 by omega)]
    rw [assemble_first _ leads (Nat.succ_ne_zero _), assemble_last c (by omega) (by omega) rfl (by omega) (by omega)]
  split
  · have leads : leadOctet (c.toNat / 4096 % 16 + 224) = some ⟨2, c.toNat / 4096, 0x800⟩ := by
      rw [leadOctet, if_neg (by omega), if_neg (by omega), if_pos (by omega)]
      exact congrArg (fun n => some (Sequence.mk 2 n 0x800)) (by omega)
    simp only [octets, List.map_cons, List.map_nil, List.cons_append, List.nil_append,
      byte (show c.toNat / 4096 % 16 + 224 < 256 by omega), byte (show c.toNat / 64 % 64 + 128 < 256 by omega),
      byte (show c.toNat % 64 + 128 < 256 by omega)]
    rw [assemble_first _ leads (Nat.succ_ne_zero _), assemble_more (by omega) (by omega),
      assemble_last c (by omega) (by omega) rfl (by omega) (by omega)]
  · have leads : leadOctet (c.toNat / 262144 % 8 + 240) = some ⟨3, c.toNat / 262144, 0x10000⟩ := by
      rw [leadOctet, if_neg (by omega), if_neg (by omega), if_neg (by omega), if_pos (by omega)]
      exact congrArg (fun n => some (Sequence.mk 3 n 0x10000)) (by omega)
    simp only [octets, List.map_cons, List.map_nil, List.cons_append, List.nil_append,
      byte (show c.toNat / 262144 % 8 + 240 < 256 by omega), byte (show c.toNat / 4096 % 64 + 128 < 256 by omega),
      byte (show c.toNat / 64 % 64 + 128 < 256 by omega), byte (show c.toNat % 64 + 128 < 256 by omega)]
    rw [assemble_first _ leads (Nat.succ_ne_zero _), assemble_more (by omega) (by omega), assemble_more (by omega) (by omega),
      assemble_last c (by omega) (by omega) rfl (by omega) (by omega)]

theorem decodeURIComponent_percentEncode (c : Char) (rest : Text) :
    decodeURIComponent (percentEncode c ++ rest) = (decodeURIComponent rest).map (c :: ·) := by
  have one : Utf8.encode [c] = String.utf8EncodeChar c := by
    rw [Utf8.encode_cons, Utf8.encode_nil, List.append_nil]
  rw [decodeURIComponent, percentEncode, one, pieces_octets, decodeURIComponent]
  cases pieces rest with
  | none => rfl
  | some read => exact assembleFrom_octets c read

/-! ### Texts -/

/-- Where percent signs are encoded, decoding undoes encoding. -/
theorem decodeURIComponent_encodeWith {keeps : Char → Bool} {text : Text}
    (escaped : ∀ c ∈ text, keeps c = true → c ≠ '%') (rest : Text) :
    decodeURIComponent (encodeWith keeps text ++ rest) = (decodeURIComponent rest).map (text ++ ·) := by
  induction text with
  | nil =>
    change decodeURIComponent rest = (decodeURIComponent rest).map fun text => text
    rw [Option.map_id']
  | cons c text ih =>
    have later := ih fun d mem => escaped d (List.mem_cons_of_mem c mem)
    have shape : encodeWith keeps (c :: text) = (if keeps c then [c] else percentEncode c) ++ encodeWith keeps text :=
      List.flatMap_cons
    rw [shape, List.append_assoc]
    by_cases kept : keeps c = true
    · rw [if_pos kept, List.singleton_append, decodeURIComponent_char (escaped c List.mem_cons_self kept), later]
      cases decodeURIComponent rest <;> rfl
    · rw [if_neg kept, decodeURIComponent_percentEncode, later]
      cases decodeURIComponent rest <;> rfl

end Dropway.Lib.Uri
