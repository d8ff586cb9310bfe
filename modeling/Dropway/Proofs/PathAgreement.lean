import Dropway.Edge.Route
import Dropway.Lib.Ascii
import Dropway.Serve.Route

/-! The two cleaners of request paths. They agree on every path whose escapes
spell text; the Go server does not ask for that. -/

namespace Dropway.Serve
open Lib Lib.Uri

/-! ### Escapes -/

private def pieceBytes : Piece → Bytes
  | .char c => String.utf8EncodeChar c
  | .octet byte => [UInt8.ofNat byte]

private theorem fromHex_high {b : UInt8} (high : 0x80 ≤ b.toNat) : fromHex b = none := by
  unfold fromHex
  simp only [UInt8.le_iff_toNat_le]
  rw [if_neg, if_neg, if_neg]
  all_goals
    rintro ⟨-, below⟩
    simp at below
    omega

private theorem fromHex_ascii : ∀ n < 128,
    fromHex (UInt8.ofNat n) = (hexValue (Char.ofNat n)).map UInt8.ofNat := by
  decide

private theorem hexValue_ascii {c : Char} {value : Nat} (read : hexValue c = some value) :
    c.toNat < 0x80 ∧ value < 16 := by
  unfold hexValue at read
  split at read
  · rename_i range
    have low : '0'.toNat ≤ c.toNat := range.1
    have high : c.toNat ≤ '9'.toNat := range.2
    cases read
    simp at low high ⊢
    omega
  split at read
  · rename_i range
    have low : 'A'.toNat ≤ c.toNat := range.1
    have high : c.toNat ≤ 'F'.toNat := range.2
    cases read
    simp at low high ⊢
    omega
  split at read
  · rename_i range
    have low : 'a'.toNat ≤ c.toNat := range.1
    have high : c.toNat ≤ 'f'.toNat := range.2
    cases read
    simp at low high ⊢
    omega
  · cases read

/-- The first byte of a character is a hex digit as the character is. -/
private theorem fromHex_first (c : Char) : ∃ b more, String.utf8EncodeChar c = b :: more ∧
    fromHex b = (hexValue c).map UInt8.ofNat ∧ (∀ value, hexValue c = some value → more = []) := by
  by_cases small : c.toNat < 0x80
  · refine ⟨Utf8.byteOf c, [], Utf8.encodeChar_ascii small, ?_, fun _ _ => rfl⟩
    have here := fromHex_ascii c.toNat small
    rwa [Char.ofNat_toNat] at here
  · cases bytes : String.utf8EncodeChar c with
    | nil => exact absurd bytes (Utf8.encodeChar_ne_nil c)
    | cons b more =>
      have large : 0x80 ≤ c.toNat := by omega
      have high := Utf8.encodeChar_high large b (by rw [bytes]; exact List.mem_cons_self)
      have none : hexValue c = none := by
        cases read : hexValue c with
        | none => rfl
        | some value => exact absurd (hexValue_ascii read).1 small
      refine ⟨b, more, rfl, ?_, fun value read => ?_⟩
      · rw [fromHex_high high, none]
        rfl
      · rw [none] at read
        cases read

private theorem hexByte_bytes {high low : Nat} (one : high < 16) (two : low < 16) :
    UInt8.ofNat high <<< 4 ||| UInt8.ofNat low = UInt8.ofNat (high * 16 + low) := by
  interval_cases high <;> interval_cases low <;> rfl

private theorem decodeOnce_append {front : Bytes} (free : 0x25 ∉ front) (back : Bytes) :
    decodeOnce (front ++ back) = (decodeOnce back).map (front ++ ·) := by
  induction front with
  | nil => simp
  | cons byte front ih =>
    have here : byte ≠ 0x25 := fun same => free (same ▸ List.mem_cons_self)
    rw [List.cons_append, decodeOnce_literal here, ih fun later => free (List.mem_cons_of_mem _ later)]
    cases decodeOnce back <;> rfl

private theorem decodeOnce_stop {b : UInt8} (stop : fromHex b = none) (rest : Bytes) :
    decodeOnce (0x25 :: b :: rest) = none := by
  cases rest with
  | nil => rfl
  | cons low rest => rw [decodeOnce_escape, stop, Option.bind_none]

private theorem literal_free {c : Char} (literal : c ≠ '%') : 0x25 ∉ String.utf8EncodeChar c :=
  fun mem => literal ((Utf8.byteOf_mem_encodeChar (a := '%') (by decide)).mp mem)

theorem decodeOnce_encode (raw : Text) :
    decodeOnce (Utf8.encode raw) = (pieces raw).map fun read => read.flatMap pieceBytes := by
  fun_induction pieces raw with
  | case1 => rfl
  | case2 high low rest ih =>
    obtain ⟨b, more, highBytes, highHex, highOne⟩ := fromHex_first high
    obtain ⟨d, more', lowBytes, lowHex, lowOne⟩ := fromHex_first low
    have text : Utf8.encode ('%' :: high :: low :: rest) =
        0x25 :: b :: (more ++ (d :: more' ++ Utf8.encode rest)) := by
      rw [Utf8.encode_cons, Utf8.encode_cons, Utf8.encode_cons, highBytes, lowBytes]
      rfl
    rw [text]
    cases highRead : hexValue high with
    | none =>
      rw [highRead] at highHex
      rw [decodeOnce_stop highHex]
      simp [hexByte, highRead]
    | some h =>
      rw [highOne h highRead, List.nil_append, List.cons_append, decodeOnce_escape, highHex, lowHex, highRead]
      cases lowRead : hexValue low with
      | none => simp [hexByte, highRead, lowRead]
      | some l =>
        rw [lowOne l lowRead, List.nil_append, ih]
        have byte := hexByte_bytes (hexValue_ascii highRead).2 (hexValue_ascii lowRead).2
        cases pieces rest <;> simp [hexByte, highRead, lowRead, pieceBytes, byte]
  | case3 rest short =>
    rcases rest with _ | ⟨high, _ | ⟨low, more⟩⟩
    · rfl
    · obtain ⟨b, more, bytes, hex, one⟩ := fromHex_first high
      have text : Utf8.encode ['%', high] = 0x25 :: b :: more := by
        rw [Utf8.encode_cons, Utf8.encode_cons, bytes, Utf8.encode_nil, List.append_nil]
        rfl
      rw [text, Option.map_none]
      cases read : hexValue high with
      | none =>
        rw [read] at hex
        exact decodeOnce_stop hex more
      | some value =>
        rw [one value read]
        rfl
    · exact absurd rfl (short high low more)
  | case4 c rest escape literal ih =>
    rw [Utf8.encode_cons, decodeOnce_append (literal_free literal), ih]
    cases pieces rest <;> rfl

/-! ### Characters -/

/-- An unfinished sequence goes on with an octet that continues it. -/
private theorem assemble_continues {run : Sequence} {k : Nat} (missing : run.missing = k + 1)
    {read : List Piece} {text : Text} (assembled : assembleFrom run read = some text) :
    ∃ byte rest, read = .octet byte :: rest ∧ 0x80 ≤ byte ∧ byte ≤ 0xBF ∧
      if k = 0 then ∃ c more, scalar run.least (run.point * 64 + (byte - 0x80)) = some c ∧
        assembleFrom {} rest = some more ∧ text = c :: more
      else assembleFrom { run with missing := k, point := run.point * 64 + (byte - 0x80) } rest = some text := by
  cases read with
  | nil => simp [assembleFrom, missing] at assembled
  | cons piece rest =>
    cases piece with
    | char c => simp [assembleFrom, missing] at assembled
    | octet byte =>
      refine ⟨byte, rest, rfl, ?_⟩
      simp only [assembleFrom, Sequence.read, missing, Nat.add_one_ne_zero, if_false] at assembled
      unfold continuation at assembled
      by_cases range : 0x80 ≤ byte ∧ byte ≤ 0xBF
      · simp only [if_pos range, Option.map_some, Nat.add_sub_cancel] at assembled
        refine ⟨range.1, range.2, ?_⟩
        by_cases last : k = 0
        · simp only [if_pos last] at assembled ⊢
          obtain ⟨c, found, rest⟩ := Option.bind_eq_some_iff.mp assembled
          obtain ⟨more, read, same⟩ := Option.map_eq_some_iff.mp rest
          exact ⟨c, more, found, read, same.symm⟩
        · simp only [if_neg last] at assembled ⊢
          exact assembled
      · simp [if_neg range] at assembled

private theorem scalar_toNat {least point : Nat} {c : Char} (found : scalar least point = some c) :
    least ≤ point ∧ c.toNat = point := by
  unfold scalar at found
  split at found
  · rename_i valid
    cases found
    refine ⟨valid.1, ?_⟩
    rw [Char.ofNat, dif_pos valid.2]
    rfl
  · cases found

private theorem encode_two {c : Char} {a b : Nat} (first : 0xC0 ≤ a ∧ a ≤ 0xDF) (second : 0x80 ≤ b ∧ b ≤ 0xBF)
    (least : 0x80 ≤ c.toNat) (value : c.toNat = (a - 0xC0) * 64 + (b - 0x80)) :
    String.utf8EncodeChar c = [UInt8.ofNat a, UInt8.ofNat b] := by
  rw [String.utf8EncodeChar]
  simp only [show c.val.toNat = c.toNat from rfl]
  rw [if_neg (by omega), if_pos (by omega), show c.toNat / 64 % 32 + 192 = a by omega,
    show c.toNat % 64 + 128 = b by omega]

private theorem encode_three {c : Char} {a b d : Nat} (first : 0xE0 ≤ a ∧ a ≤ 0xEF)
    (second : 0x80 ≤ b ∧ b ≤ 0xBF) (third : 0x80 ≤ d ∧ d ≤ 0xBF) (least : 0x800 ≤ c.toNat)
    (value : c.toNat = ((a - 0xE0) * 64 + (b - 0x80)) * 64 + (d - 0x80)) :
    String.utf8EncodeChar c = [UInt8.ofNat a, UInt8.ofNat b, UInt8.ofNat d] := by
  rw [String.utf8EncodeChar]
  simp only [show c.val.toNat = c.toNat from rfl]
  rw [if_neg (by omega), if_neg (by omega), if_pos (by omega), show c.toNat / 4096 % 16 + 224 = a by omega,
    show c.toNat / 64 % 64 + 128 = b by omega, show c.toNat % 64 + 128 = d by omega]

private theorem encode_four {c : Char} {a b d e : Nat} (first : 0xF0 ≤ a ∧ a ≤ 0xF7)
    (second : 0x80 ≤ b ∧ b ≤ 0xBF) (third : 0x80 ≤ d ∧ d ≤ 0xBF) (fourth : 0x80 ≤ e ∧ e ≤ 0xBF)
    (least : 0x10000 ≤ c.toNat)
    (value : c.toNat = (((a - 0xF0) * 64 + (b - 0x80)) * 64 + (d - 0x80)) * 64 + (e - 0x80)) :
    String.utf8EncodeChar c = [UInt8.ofNat a, UInt8.ofNat b, UInt8.ofNat d, UInt8.ofNat e] := by
  rw [String.utf8EncodeChar]
  simp only [show c.val.toNat = c.toNat from rfl]
  rw [if_neg (by omega), if_neg (by omega), if_neg (by omega), show c.toNat / 262144 % 8 + 240 = a by omega,
    show c.toNat / 4096 % 64 + 128 = b by omega, show c.toNat / 64 % 64 + 128 = d by omega,
    show c.toNat % 64 + 128 = e by omega]

/-- The octets that a character is read from are its encoding. -/
private theorem assemble_octet {byte : Nat} {read : List Piece} {text : Text}
    (assembled : assembleFrom {} (.octet byte :: read) = some text) :
    ∃ c more rest front, text = c :: more ∧ assembleFrom {} rest = some more ∧
      .octet byte :: read = front ++ rest ∧ front ≠ [] ∧ front.flatMap pieceBytes = String.utf8EncodeChar c := by
  simp only [assembleFrom, Sequence.read, if_true] at assembled
  unfold leadOctet at assembled
  split at assembled
  · cases assembled
  rename_i next started
  split at started
  · rename_i one
    cases started
    simp only [if_true] at assembled
    obtain ⟨c, found, rest⟩ := Option.bind_eq_some_iff.mp assembled
    obtain ⟨more, assembled, same⟩ := Option.map_eq_some_iff.mp rest
    obtain ⟨-, value⟩ := scalar_toNat found
    refine ⟨c, more, read, [.octet byte], same.symm, assembled, rfl, List.cons_ne_nil _ _, ?_⟩
    rw [Utf8.encodeChar_ascii (by omega), Utf8.byteOf, value]
    rfl
  split at started
  · rename_i first
    cases started
    simp only [Nat.one_ne_zero, if_false] at assembled
    obtain ⟨b, rest, rfl, low, high, next⟩ := assemble_continues (k := 0) rfl assembled
    obtain ⟨c, more, found, assembled, same⟩ := next
    obtain ⟨least, value⟩ := scalar_toNat found
    dsimp only at least value
    rw [← value] at least
    refine ⟨c, more, rest, [.octet byte, .octet b], same, assembled, rfl, List.cons_ne_nil _ _, ?_⟩
    rw [encode_two first ⟨low, high⟩ least value]
    rfl
  split at started
  · rename_i first
    cases started
    simp only [OfNat.ofNat_ne_zero, if_false] at assembled
    obtain ⟨b, rest, rfl, low, high, next⟩ := assemble_continues (k := 1) rfl assembled
    rw [if_neg Nat.one_ne_zero] at next
    obtain ⟨d, rest, rfl, low', high', next⟩ := assemble_continues (k := 0) rfl next
    obtain ⟨c, more, found, assembled, same⟩ := next
    obtain ⟨least, value⟩ := scalar_toNat found
    dsimp only at least value
    rw [← value] at least
    refine ⟨c, more, rest, [.octet byte, .octet b, .octet d], same, assembled, rfl, List.cons_ne_nil _ _, ?_⟩
    rw [encode_three first ⟨low, high⟩ ⟨low', high'⟩ least value]
    rfl
  split at started
  · rename_i first
    cases started
    simp only [OfNat.ofNat_ne_zero, if_false] at assembled
    obtain ⟨b, rest, rfl, low, high, next⟩ := assemble_continues (k := 2) rfl assembled
    rw [if_neg (by decide)] at next
    obtain ⟨d, rest, rfl, low', high', next⟩ := assemble_continues (k := 1) rfl next
    rw [if_neg Nat.one_ne_zero] at next
    obtain ⟨e, rest, rfl, low'', high'', next⟩ := assemble_continues (k := 0) rfl next
    obtain ⟨c, more, found, assembled, same⟩ := next
    obtain ⟨least, value⟩ := scalar_toNat found
    dsimp only at least value
    rw [← value] at least
    refine ⟨c, more, rest, [.octet byte, .octet b, .octet d, .octet e], same, assembled, rfl,
      List.cons_ne_nil _ _, ?_⟩
    rw [encode_four first ⟨low, high⟩ ⟨low', high'⟩ ⟨low'', high''⟩ least value]
    rfl
  · cases started

private theorem assemble_bytes (n : Nat) {read : List Piece} (short : read.length ≤ n) {text : Text}
    (assembled : assembleFrom {} read = some text) : read.flatMap pieceBytes = Utf8.encode text := by
  induction n generalizing read text with
  | zero =>
    obtain rfl : read = [] := List.length_eq_zero_iff.mp (by omega)
    cases assembled
    rfl
  | succ n ih =>
    cases read with
    | nil =>
      cases assembled
      rfl
    | cons piece rest =>
      cases piece with
      | char c =>
        simp only [assembleFrom, if_true] at assembled
        obtain ⟨more, tail, rfl⟩ := Option.map_eq_some_iff.mp assembled
        rw [List.length_cons] at short
        rw [List.flatMap_cons, ih (by omega) tail, Utf8.encode_cons]
        rfl
      | octet byte =>
        obtain ⟨c, more, rest, front, rfl, assembled, same, nonempty, bytes⟩ := assemble_octet assembled
        have length := congrArg List.length same
        have positive := List.length_pos_iff.mpr nonempty
        rw [List.length_append] at length
        rw [same, List.flatMap_append, bytes, ih (by omega) assembled, Utf8.encode_cons]

/-- Escapes that spell text are read alike. -/
theorem decodeOnce_eq {raw decoded : Text} (spelled : decodeURIComponent raw = some decoded) :
    decodeOnce (Utf8.encode raw) = some (Utf8.encode decoded) := by
  obtain ⟨read, found, assembled⟩ := Option.bind_eq_some_iff.mp spelled
  rw [decodeOnce_encode, found, Option.map_some, assemble_bytes read.length (Nat.le_refl _) assembled]

/-! ### Paths -/

theorem pathPart_encode (raw : Text) :
    pathPart (Utf8.encode raw) = Utf8.encode (raw.takeWhile fun c => c ≠ '?' ∧ c ≠ '#') := by
  have agrees := (Utf8.agrees_ne (a := '?') (by decide)).and (Utf8.agrees_ne (a := '#') (by decide))
  have taken := agrees.takeWhile raw
  simp only [← Bool.decide_and] at taken
  exact taken

private theorem contains_encode {a : Char} (small : a.toNat < 0x80) (text : Text) :
    (Utf8.encode text).contains (Utf8.byteOf a) = decide (a ∈ text) := by
  rw [Bool.eq_iff_iff, List.contains_iff_mem, decide_eq_true_eq]
  exact Utf8.byteOf_mem_encode small

private theorem segmentsOf_encode (text : Text) :
    segmentsOf (Utf8.encode text) = (Edge.segmentsOf text).map (List.map Utf8.encode) := by
  have split : (Utf8.encode text).splitOn 0x2F = (text.splitOn '/').map Utf8.encode :=
    Utf8.splitOn_encode (a := '/') (by decide) text
  have climbs : ((text.splitOn '/').map Utf8.encode).contains dotDot = decide (['.', '.'] ∈ text.splitOn '/') := by
    rw [Bool.eq_iff_iff, List.contains_iff_mem, decide_eq_true_eq, List.mem_map]
    constructor
    · rintro ⟨segment, mem, same⟩
      exact Utf8.encode_injective (same.trans (show dotDot = Utf8.encode ['.', '.'] from rfl)) ▸ mem
    · exact fun mem => ⟨_, mem, rfl⟩
  have kept (segments : List Text) :
      (segments.map Utf8.encode).filter (fun segment => segment ≠ [] ∧ segment ≠ [0x2E]) =
        (segments.filter fun segment => segment ≠ [] ∧ segment ≠ ['.']).map Utf8.encode := by
    rw [List.filter_map]
    congr 2
    funext segment
    have dot : Utf8.encode segment = [0x2E] ↔ segment = ['.'] :=
      ⟨fun same => Utf8.encode_injective (same.trans (show [0x2E] = Utf8.encode ['.'] from rfl)),
        fun same => same ▸ rfl⟩
    simp only [Function.comp_apply, ne_eq, Utf8.encode_eq_nil, dot]
  simp only [segmentsOf, Edge.segmentsOf, split, climbs]
  by_cases climb : ['.', '.'] ∈ text.splitOn '/'
  · simp [climb]
  · simp only [climb, decide_false, Bool.false_eq_true, if_false, kept, Option.map_some]

theorem intercalate_encode (segments : List Text) :
    [0x2F].intercalate (segments.map Utf8.encode) = Utf8.encode (['/'].intercalate segments) := by
  induction segments with
  | nil => rfl
  | cons segment rest ih =>
    cases rest with
    | nil => rw [List.map_cons, List.map_nil, List.intercalate_singleton, List.intercalate_singleton]
    | cons next rest =>
      rw [List.map_cons] at ih
      rw [List.map_cons, List.map_cons, List.intercalate_cons_cons, List.intercalate_cons_cons, ih,
        Utf8.encode_append, Utf8.encode_append]
      rfl

/-- Whether a path asks for a directory. -/
private theorem endedWithSlash_encode (decoded : Text) :
    (1 < (Utf8.encode decoded).length ∧ (Utf8.encode decoded).getLast? = some 0x2F) ↔
      (1 < decoded.length ∧ decoded.getLast? = some '/') := by
  rw [show (0x2F : UInt8) = Utf8.byteOf '/' from rfl, Utf8.getLast_encode (by decide)]
  refine and_congr_left fun last => ?_
  rcases List.eq_nil_or_concat decoded with rfl | ⟨front, c, rfl⟩
  · cases last
  rw [List.concat_eq_append, List.getLast?_concat, Option.some.injEq] at last
  have nonempty : 0 < (Utf8.encode front).length ↔ 0 < front.length := by
    rw [List.length_pos_iff, List.length_pos_iff, ne_eq, ne_eq, Utf8.encode_eq_nil]
  rw [List.concat_eq_append, last, Utf8.encode_append, List.length_append, List.length_append,
    show (Utf8.encode ['/']).length = 1 from rfl, List.length_singleton]
  omega

/-- A path whose escapes spell text is cleaned alike. -/
theorem cleanPath_eq {raw decoded : Text}
    (spelled : decodeURIComponent (raw.takeWhile fun c => c ≠ '?' ∧ c ≠ '#') = some decoded) :
    cleanPath (Utf8.encode raw) = (Edge.cleanPath raw).map Utf8.encode := by
  have nul : (Utf8.encode decoded).contains 0 = decide ('\x00' ∈ decoded) :=
    contains_encode (a := '\x00') (by decide) decoded
  have backslash : (Utf8.encode decoded).contains 0x5C = decide ('\\' ∈ decoded) :=
    contains_encode (a := '\\') (by decide) decoded
  have rooted : (Utf8.encode decoded).dropWhile (fun b => decide (b = 0x2F)) =
      Utf8.encode (decoded.dropWhile fun c => decide (c = '/')) :=
    (Utf8.agrees_eq (a := '/') (by decide)).dropWhile decoded
  simp only [cleanPath, Edge.cleanPath, pathPart_encode, decodeOnce_eq spelled, spelled,
    Option.bind_eq_bind, Option.bind_some, nul, backslash, decide_eq_true_eq, rooted, segmentsOf_encode]
  by_cases barred : '\x00' ∈ decoded ∨ '\\' ∈ decoded
  · rw [if_pos barred, if_pos barred]
    rfl
  rw [if_neg barred, if_neg barred]
  cases Edge.segmentsOf (decoded.dropWhile fun c => decide (c = '/')) with
  | none => rfl
  | some out =>
    simp only [Option.map_some, Option.bind_some, intercalate_encode, ne_eq, Utf8.encode_eq_nil]
    by_cases slash : (1 < decoded.length ∧ decoded.getLast? = some '/') ∧ ¬ ['/'].intercalate out = []
    · rw [if_pos slash, if_pos ⟨(endedWithSlash_encode decoded).mpr slash.1, slash.2⟩]
      exact congrArg some (Utf8.encode_append _ ['/']).symm
    · rw [if_neg slash, if_neg fun both => slash ⟨(endedWithSlash_encode decoded).mp both.1, both.2⟩]
      rfl

end Dropway.Serve
