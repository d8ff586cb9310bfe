import Dropway.Lib.Ascii
import Dropway.Lib.Uri

/-! Query strings: what the form serializer writes is read back as it was, character
by character, entry by entry. -/

namespace Dropway.Lib.Uri

/-! ### Escapes -/

private theorem hexDigit_small : ∀ value < 16, (hexDigit value).toNat < 0x80 := by decide

private theorem hexValue_hexDigit : ∀ value < 16, hexValue (hexDigit value) = some value := by decide

private theorem hexDigit_kept : ∀ value < 16, (hexDigit value).isAlphanum = true := by decide

theorem percentEncode_chars (c : Char) : ∀ d ∈ percentEncode c, d = '%' ∨ d.isAlphanum = true := by
  intro d mem
  obtain ⟨byte, -, here⟩ := List.mem_flatMap.mp mem
  have small := byte.toNat_lt
  simp only [List.mem_cons, List.not_mem_nil, or_false] at here
  rcases here with rfl | rfl | rfl
  · exact .inl rfl
  · exact .inr (hexDigit_kept _ (by omega))
  · exact .inr (hexDigit_kept _ (by omega))

private theorem percentDecode_plain {a : UInt8} (plain : a ≠ 0x25) (rest : Bytes) :
    percentDecode (a :: rest) = a :: percentDecode rest := by
  rcases rest with _ | ⟨b, _ | ⟨c, rest⟩⟩
  · rfl
  · rfl
  · rw [percentDecode, if_neg plain]

private theorem char_byteOf {c : Char} (small : c.toNat < 0x80) : Char.ofNat (Utf8.byteOf c).toNat = c := by
  rw [Utf8.byteOf_toNat small, Char.ofNat_toNat]

/-- One escape. -/
private theorem percentDecode_escape (byte : UInt8) (rest : Bytes) :
    percentDecode (Utf8.encode ['%', hexDigit (byte.toNat / 16), hexDigit (byte.toNat % 16)] ++ rest) =
      byte :: percentDecode rest := by
  have small := byte.toNat_lt
  have highSmall : byte.toNat / 16 < 16 := by omega
  have lowSmall : byte.toNat % 16 < 16 := by omega
  have text : Utf8.encode ['%', hexDigit (byte.toNat / 16), hexDigit (byte.toNat % 16)] =
      [0x25, Utf8.byteOf (hexDigit (byte.toNat / 16)), Utf8.byteOf (hexDigit (byte.toNat % 16))] := by
    rw [Utf8.encode_cons, Utf8.encode_cons, Utf8.encode_cons, Utf8.encodeChar_ascii (hexDigit_small _ highSmall),
      Utf8.encodeChar_ascii (hexDigit_small _ lowSmall)]
    rfl
  have value : hexByte (hexDigit (byte.toNat / 16)) (hexDigit (byte.toNat % 16)) = some byte.toNat := by
    unfold hexByte
    rw [hexValue_hexDigit _ highSmall, hexValue_hexDigit _ lowSmall]
    exact congrArg some (Nat.div_add_mod' byte.toNat 16)
  rw [text]
  simp only [List.cons_append, List.nil_append, percentDecode, if_true, char_byteOf (hexDigit_small _ highSmall),
    char_byteOf (hexDigit_small _ lowSmall), value, UInt8.ofNat_toNat]

private theorem percentDecode_percentEncode (c : Char) (rest : Bytes) :
    percentDecode (Utf8.encode (percentEncode c) ++ rest) = String.utf8EncodeChar c ++ percentDecode rest := by
  have bytes (front : Bytes) : percentDecode (Utf8.encode (front.flatMap fun byte =>
      ['%', hexDigit (byte.toNat / 16), hexDigit (byte.toNat % 16)]) ++ rest) = front ++ percentDecode rest := by
    induction front with
    | nil => rfl
    | cons byte front ih =>
      rw [List.flatMap_cons, Utf8.encode_append, List.append_assoc, percentDecode_escape, ih]
      rfl
  have one : Utf8.encode [c] = String.utf8EncodeChar c := by
    rw [Utf8.encode_cons, Utf8.encode_nil, List.append_nil]
  rw [← one]
  exact bytes (Utf8.encode [c])

/-! ### Values -/

theorem isAlphanum_ascii {c : Char} (alphanum : c.isAlphanum = true) : c.toNat < 0x80 := by
  change ((decide (65 ≤ c.val ∧ c.val ≤ 90) || (decide (97 ≤ c.val) && decide (c.val ≤ 122))) ||
    (decide (48 ≤ c.val) && decide (c.val ≤ 57))) = true at alphanum
  simp only [Bool.or_eq_true, Bool.and_eq_true, decide_eq_true_eq, UInt32.le_iff_toNat_le] at alphanum
  have value : c.toNat = c.val.toNat := rfl
  simp at alphanum
  omega

/-- What stands for itself. -/
private theorem formKeeps_plain {c : Char} (keeps : formKeeps c = true) :
    c.toNat < 0x80 ∧ c ≠ '+' ∧ c ≠ '%' ∧ c ≠ '&' ∧ c ≠ '=' := by
  have differs (d : Char) (unkept : formKeeps d = false) : c ≠ d := by
    rintro rfl
    rw [keeps] at unkept
    cases unkept
  refine ⟨?_, differs '+' (by decide), differs '%' (by decide), differs '&' (by decide), differs '=' (by decide)⟩
  rcases Bool.or_eq_true_iff.mp keeps with alphanum | mark
  · exact isAlphanum_ascii alphanum
  · have listed : c ∈ "*-._".toList := List.contains_iff_mem.mp mark
    simp only [show "*-._".toList = ['*', '-', '.', '_'] from rfl, List.mem_cons, List.not_mem_nil, or_false] at listed
    rcases listed with rfl | rfl | rfl | rfl <;> decide

private def unplus (c : Char) : Char := if c = '+' then ' ' else c

private theorem percentEncode_unplus (c : Char) : (percentEncode c).map unplus = percentEncode c := by
  have same : ∀ d ∈ percentEncode c, unplus d = d := by
    intro d mem
    refine if_neg fun plus => ?_
    rcases percentEncode_chars c d mem with percent | alphanum
    · rw [percent] at plus
      exact absurd plus (by decide)
    · rw [plus] at alphanum
      exact absurd alphanum (by decide)
  rw [List.map_congr_left same]
  exact List.map_id _

private theorem formEncode_cons (c : Char) (text : Text) :
    formEncode (c :: text) =
      (if c = ' ' then ['+'] else if formKeeps c then [c] else percentEncode c) ++ formEncode text :=
  List.flatMap_cons

private theorem percentDecode_formEncode (text : Text) :
    percentDecode (Utf8.encode ((formEncode text).map unplus)) = Utf8.encode text := by
  induction text with
  | nil => rfl
  | cons c text ih =>
    rw [formEncode_cons, List.map_append, Utf8.encode_append, Utf8.encode_cons]
    by_cases space : c = ' '
    · subst space
      have one : Utf8.encode (['+'].map unplus) = [0x20] := by decide
      have literal : (0x20 : UInt8) ≠ 0x25 := by decide
      rw [if_pos rfl, one, List.singleton_append, percentDecode_plain literal, ih]
      rfl
    rw [if_neg space]
    by_cases keeps : formKeeps c = true
    · obtain ⟨small, plus, percent, -, -⟩ := formKeeps_plain keeps
      have one : Utf8.encode ([c].map unplus) = [Utf8.byteOf c] := by
        rw [List.map_singleton, unplus, if_neg plus, Utf8.encode_cons, Utf8.encodeChar_ascii small]
        rfl
      have literal : Utf8.byteOf c ≠ 0x25 := by
        intro same
        have mem : Utf8.byteOf '%' ∈ String.utf8EncodeChar c := by
          rw [Utf8.encodeChar_ascii small, same]
          exact List.mem_singleton_self _
        exact percent ((Utf8.byteOf_mem_encodeChar (by decide)).mp mem)
      rw [if_pos keeps, one, List.singleton_append, percentDecode_plain literal, ih, Utf8.encodeChar_ascii small]
      rfl
    · rw [if_neg keeps, percentEncode_unplus, percentDecode_percentEncode, ih]

theorem formDecode_formEncode (text : Text) : formDecode (formEncode text) = text := by
  unfold formDecode
  have bytes := percentDecode_formEncode text
  unfold unplus at bytes
  rw [bytes, Utf8.decode_encode]

theorem formEncode_chars (text : Text) : ∀ d ∈ formEncode text, d ≠ '&' ∧ d ≠ '=' := by
  intro d mem
  obtain ⟨c, -, here⟩ := List.mem_flatMap.mp mem
  split at here
  · rw [List.mem_singleton] at here
    subst here
    decide
  split at here
  · rename_i keeps
    rw [List.mem_singleton] at here
    subst here
    exact (formKeeps_plain keeps).2.2.2
  · rcases percentEncode_chars c d here with rfl | alphanum
    · decide
    · constructor
      all_goals
        rintro rfl
        exact absurd alphanum (by decide)

/-! ### Entries -/

/-- An entry as it is written. -/
private def entryText (entry : Text × Text) : Text := formEncode entry.1 ++ '=' :: formEncode entry.2

private theorem entryText_read (entry : Text × Text) :
    (formDecode ((entryText entry).takeWhile (· ≠ '=')), formDecode ((entryText entry).dropWhile (· ≠ '=')).tail) = entry := by
  have kept : ∀ c ∈ formEncode entry.1, decide (c ≠ '=') = true :=
    fun c mem => decide_eq_true (formEncode_chars entry.1 c mem).2
  have name : (entryText entry).takeWhile (· ≠ '=') = formEncode entry.1 := by
    rw [entryText, List.takeWhile_append_of_pos kept, List.takeWhile_cons_of_neg (by decide), List.append_nil]
  have value : (entryText entry).dropWhile (· ≠ '=') = '=' :: formEncode entry.2 := by
    rw [entryText, List.dropWhile_append_of_pos kept, List.dropWhile_cons_of_neg (by decide)]
  rw [name, value, List.tail_cons, formDecode_formEncode, formDecode_formEncode]

private theorem entryText_free (entry : Text × Text) : '&' ∉ entryText entry := by
  intro mem
  rcases List.mem_append.mp mem with name | rest
  · exact (formEncode_chars entry.1 _ name).1 rfl
  · rcases List.mem_cons.mp rest with mark | value
    · exact absurd mark (by decide)
    · exact (formEncode_chars entry.2 _ value).1 rfl

private theorem entryText_ne_nil (entry : Text × Text) : entryText entry ≠ [] := by
  intro blank
  exact List.cons_ne_nil _ _ (List.append_eq_nil_iff.mp blank).2

theorem searchParams_formSerialize (params : List (Text × Text)) : searchParams (formSerialize params) = params := by
  have shape : formSerialize params = ['&'].intercalate (params.map entryText) := by
    refine congrArg (['&'].intercalate) (List.map_congr_left fun entry _ => ?_)
    obtain ⟨name, value⟩ := entry
    exact List.append_assoc (formEncode name) ['='] (formEncode value)
  cases params with
  | nil => rfl
  | cons entry rest =>
    have split : (['&'].intercalate ((entry :: rest).map entryText)).splitOn '&' = (entry :: rest).map entryText := by
      refine List.splitOn_intercalate '&' (fun part mem => ?_) (List.cons_ne_nil _ _)
      obtain ⟨entry, -, rfl⟩ := List.mem_map.mp mem
      exact entryText_free entry
    have kept : ((entry :: rest).map entryText).filter (· ≠ []) = (entry :: rest).map entryText := by
      refine List.filter_eq_self.mpr fun part mem => ?_
      obtain ⟨entry, -, rfl⟩ := List.mem_map.mp mem
      exact decide_eq_true (entryText_ne_nil entry)
    rw [searchParams, shape, split, kept, List.map_map]
    refine (List.map_congr_left fun entry _ => ?_).trans (List.map_id _)
    exact entryText_read entry

/-! ### Parameters -/

private theorem find_setParam (name value : Text) (params : List (Text × Text)) :
    (setParam name value params).find? (·.1 = name) = some (name, value) := by
  induction params with
  | nil =>
    rw [setParam, List.find?_cons_of_pos (by simp)]
  | cons entry params ih =>
    rw [setParam]
    by_cases here : entry.1 = name
    · rw [if_pos here, List.find?_cons_of_pos (by simp)]
    · rw [if_neg here, List.find?_cons_of_neg (by simpa using here), ih]

private theorem find_setParam_other {name other : Text} (apart : other ≠ name) (value : Text)
    (params : List (Text × Text)) :
    (setParam name value params).find? (·.1 = other) = params.find? (·.1 = other) := by
  induction params with
  | nil =>
    rw [setParam, List.find?_cons_of_neg (by simpa using apart.symm)]
  | cons entry params ih =>
    rw [setParam]
    by_cases here : entry.1 = name
    · have away : ¬ entry.1 = other := fun same => apart (same.symm.trans here)
      rw [if_pos here, List.find?_cons_of_neg (by simpa using apart.symm), List.find?_cons_of_neg (by simpa using away)]
      clear ih
      induction params with
      | nil => rfl
      | cons next params ih =>
        by_cases same : next.1 = name
        · have skipped : ¬ next.1 = other := fun equal => apart (equal.symm.trans same)
          rw [List.filter_cons_of_neg (by simpa using same), ih, List.find?_cons_of_neg (by simpa using skipped)]
        · rw [List.filter_cons_of_pos (by simpa using same)]
          by_cases found : next.1 = other
          · rw [List.find?_cons_of_pos (by simpa using found), List.find?_cons_of_pos (by simpa using found)]
          · rw [List.find?_cons_of_neg (by simpa using found), List.find?_cons_of_neg (by simpa using found), ih]
    · rw [if_neg here]
      by_cases found : entry.1 = other
      · rw [List.find?_cons_of_pos (by simpa using found), List.find?_cons_of_pos (by simpa using found)]
      · rw [List.find?_cons_of_neg (by simpa using found), List.find?_cons_of_neg (by simpa using found), ih]

namespace Url

theorem params_withParam (url : Url) (name value : Text) :
    (url.withParam name value).params = setParam name value url.params :=
  searchParams_formSerialize _

@[simp] theorem getParam_withParam (url : Url) (name value : Text) :
    (url.withParam name value).getParam name = some value := by
  rw [getParam, params_withParam, find_setParam, Option.map_some]

theorem getParam_withParam_other (url : Url) {name other : Text} (apart : other ≠ name) (value : Text) :
    (url.withParam name value).getParam other = url.getParam other := by
  rw [getParam, params_withParam, find_setParam_other apart, getParam]

end Url
end Dropway.Lib.Uri
