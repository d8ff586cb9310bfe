import Dropway.Lib.Runes
import Dropway.Lib.Trim

/-! Byte strings that need not be valid, as Go trims them: rune by rune, where a
byte of no character is a visible rune of its own. -/

namespace Dropway.Lib.Utf8

inductive Rune where
  | char (c : Char)
  | stray (byte : UInt8)
  deriving DecidableEq

def Rune.bytes : Rune → Bytes
  | .char c => String.utf8EncodeChar c
  | .stray byte => [byte]

def Rune.isWhite : Rune → Bool
  | .char c => Text.isWhite c
  | .stray _ => false

/-- `skip` bytes belong to the character before. -/
def piecesFrom : Nat → Bytes → List Rune
  | _, [] => []
  | skip + 1, _ :: rest => piecesFrom skip rest
  | 0, byte :: rest =>
    match firstRune (byte :: rest) with
    | some c => .char c :: piecesFrom (c.utf8Size - 1) rest
    | none => .stray byte :: piecesFrom 0 rest

def pieces (bytes : Bytes) : List Rune := piecesFrom 0 bytes

def joined (runes : List Rune) : Bytes := runes.flatMap Rune.bytes

/-- `strings.TrimSpace`. -/
def trimSpace (bytes : Bytes) : Bytes :=
  joined (((pieces bytes).dropWhile Rune.isWhite).reverse.dropWhile Rune.isWhite).reverse

/-- What is left once all white space is deleted. -/
def visible (bytes : Bytes) : Bytes := joined ((pieces bytes).filter fun rune => !rune.isWhite)

private theorem firstRune_some {bytes : Bytes} {c : Char} (found : firstRune bytes = some c) :
    String.utf8EncodeChar c <+: bytes := by
  obtain ⟨rest, whole⟩ := ByteArray.exists_of_utf8DecodeChar?_eq_some found
  refine ⟨rest.data.toList, ?_⟩
  have same := congrArg (fun array => array.data.toList) whole
  simpa using same.symm

theorem joined_piecesFrom (skip : Nat) (bytes : Bytes) : joined (piecesFrom skip bytes) = bytes.drop skip := by
  induction bytes generalizing skip with
  | nil => simp [piecesFrom, joined]
  | cons byte rest ih =>
    cases skip with
    | succ skip => exact ih skip
    | zero =>
      unfold piecesFrom
      cases found : firstRune (byte :: rest) with
      | none =>
        change byte :: joined (piecesFrom 0 rest) = _
        rw [ih 0]
        rfl
      | some c =>
        obtain ⟨back, whole⟩ := firstRune_some found
        have size := String.length_utf8EncodeChar c
        have positive := Char.utf8Size_pos c
        cases encoded : String.utf8EncodeChar c with
        | nil =>
          rw [encoded, List.length_nil] at size
          omega
        | cons lead more =>
          rw [encoded] at whole size
          obtain ⟨rfl, tail⟩ := List.cons.inj whole
          have left : c.utf8Size - 1 = more.length := by
            rw [List.length_cons] at size
            omega
          have later : rest.drop more.length = back := by
            rw [← tail]
            exact List.drop_left
          change String.utf8EncodeChar c ++ joined (piecesFrom (c.utf8Size - 1) rest) = _
          rw [left, encoded, ih, later, ← tail]
          rfl

theorem joined_pieces (bytes : Bytes) : joined (pieces bytes) = bytes := joined_piecesFrom 0 bytes

private theorem pieces_append (c : Char) (rest : Bytes) :
    pieces (String.utf8EncodeChar c ++ rest) = .char c :: pieces rest := by
  have first : firstRune (String.utf8EncodeChar c ++ rest) = some c := firstRune_encode c rest
  have size := String.length_utf8EncodeChar c
  have positive := Char.utf8Size_pos c
  have skip (front : Bytes) : piecesFrom front.length (front ++ rest) = piecesFrom 0 rest := by
    induction front with
    | nil => rfl
    | cons byte front ih => exact ih
  cases encoded : String.utf8EncodeChar c with
  | nil =>
    rw [encoded, List.length_nil] at size
    omega
  | cons lead more =>
    rw [encoded, List.length_cons] at size
    rw [encoded, List.cons_append] at first
    have left : c.utf8Size - 1 = more.length := by omega
    unfold pieces
    rw [List.cons_append, piecesFrom, first]
    simp only [left, skip]

@[simp] theorem pieces_encode (text : Text) : pieces (encode text) = text.map .char := by
  induction text with
  | nil => rfl
  | cons c rest ih => rw [encode_cons, pieces_append, ih, List.map_cons]

@[simp] theorem joined_chars (text : Text) : joined (text.map .char) = encode text := by
  unfold joined encode
  rw [List.flatMap_map]
  rfl

private theorem dropWhile_chars (text : Text) :
    (text.map Rune.char).dropWhile Rune.isWhite = (text.dropWhile Text.isWhite).map .char := by
  rw [List.dropWhile_map]
  rfl

theorem trimSpace_encode (text : Text) : trimSpace (encode text) = encode (Text.trimSpace text) := by
  unfold trimSpace Text.trimSpace
  rw [pieces_encode, dropWhile_chars, ← List.map_reverse, dropWhile_chars, ← List.map_reverse, joined_chars]

theorem visible_encode (text : Text) : visible (encode text) = encode (text.filter fun c => !Text.isWhite c) := by
  unfold visible
  rw [pieces_encode, List.filter_map, joined_chars]
  rfl

/-- White runes are characters. -/
private theorem joined_white {runes : List Rune} (white : ∀ rune ∈ runes, rune.isWhite = true) :
    ∃ text, joined runes = encode text := by
  induction runes with
  | nil => exact ⟨[], rfl⟩
  | cons rune rest ih =>
    obtain ⟨text, same⟩ := ih fun other mem => white other (List.mem_cons_of_mem _ mem)
    cases rune with
    | stray byte => cases white _ (List.mem_cons_self ..)
    | char c => exact ⟨c :: text, congrArg (String.utf8EncodeChar c ++ ·) same⟩

/-- What trimming takes off is valid. -/
private theorem trimSpace_whole (bytes : Bytes) :
    ∃ front back, bytes = encode front ++ trimSpace bytes ++ encode back := by
  let left := (pieces bytes).dropWhile Rune.isWhite
  obtain ⟨front, first⟩ : ∃ text, joined ((pieces bytes).takeWhile Rune.isWhite) = encode text :=
    joined_white fun rune mem => List.mem_takeWhile_imp mem
  obtain ⟨back, last⟩ : ∃ text, joined (left.reverse.takeWhile Rune.isWhite).reverse = encode text :=
    joined_white fun rune mem => List.mem_takeWhile_imp (List.mem_reverse.mp mem)
  refine ⟨front, back, ?_⟩
  have inner : left = (left.reverse.dropWhile Rune.isWhite).reverse ++ (left.reverse.takeWhile Rune.isWhite).reverse := by
    rw [← List.reverse_append, List.takeWhile_append_dropWhile, List.reverse_reverse]
  calc bytes = joined (pieces bytes) := (joined_pieces bytes).symm
    _ = joined ((pieces bytes).takeWhile Rune.isWhite ++ left) := by rw [List.takeWhile_append_dropWhile]
    _ = encode front ++ joined left := by rw [← first, joined, List.flatMap_append]; rfl
    _ = encode front ++ (trimSpace bytes ++ encode back) := by
      rw [← last]
      conv_lhs => rw [inner]
      rw [joined, List.flatMap_append]
      rfl
    _ = encode front ++ trimSpace bytes ++ encode back := (List.append_assoc ..).symm

theorem valid_of_trimSpace {bytes : Bytes} (valid : Valid (trimSpace bytes)) : Valid bytes := by
  obtain ⟨front, back, whole⟩ := trimSpace_whole bytes
  rw [whole, ← valid, ← encode_append, ← encode_append]
  exact valid_encode _

theorem length_trimSpace_le (bytes : Bytes) : (trimSpace bytes).length ≤ bytes.length := by
  obtain ⟨front, back, whole⟩ := trimSpace_whole bytes
  have lengths := congrArg List.length whole
  rw [List.length_append, List.length_append] at lengths
  omega

end Dropway.Lib.Utf8
