import Dropway.Lib.JsonText

/-! An object written over several lines, a member to each, and read back. -/

namespace Dropway.Lib.JsonText

/-- A member on a line of its own, two spaces in. Its value is written compactly. -/
def memberLine (member : List Glyph × Doc) : Text :=
  "\n  ".toList ++ quote member.1 ++ ": ".toList ++ write member.2

def memberLines : List (List Glyph × Doc) → Text
  | [] => []
  | [member] => memberLine member
  | member :: rest => memberLine member ++ ',' :: memberLines rest

def writeLines (members : List (List Glyph × Doc)) : Text := '{' :: memberLines members ++ "\n\x7d".toList

private theorem skipSpace_skip {c : Char} (space : isSpace c = true) (rest : Text) :
    skipSpace (c :: rest) = skipSpace rest :=
  List.dropWhile_cons_of_pos space

private theorem readValue_skip {c : Char} (space : isSpace c = true) (fuel : Nat) (rest : Text) :
    readValue (fuel + 1) (c :: rest) = readValue (fuel + 1) rest := by
  rw [readValue, readValue, skipSpace_skip space]

private theorem readMembers_skip {c : Char} (space : isSpace c = true) (fuel : Nat) (rest : Text) :
    readMembers (fuel + 1) (c :: rest) = readMembers (fuel + 1) rest := by
  rw [readMembers, readMembers, skipSpace_skip space]

private theorem readMembers_line {fuel : Nat} {name : List Glyph} {value : Doc} (whole : Whole name)
    (proper : value.Proper) (enough : 2 * (write value).length ≤ fuel + 1) {rest : Text} (follows : Follows rest) :
    readMembers (fuel + 2) (memberLine (name, value) ++ rest) =
      match skipSpace rest with
      | ',' :: rest => (readMembers (fuel + 1) rest).map fun (members, rest) =>
          ((name.map Glyph.legible, value.legible) :: members, rest)
      | '}' :: rest => some ([(name.map Glyph.legible, value.legible)], rest)
      | _ => none := by
  have text : memberLine (name, value) ++ rest =
      '\n' :: ' ' :: ' ' :: (quote name ++ ':' :: ' ' :: (write value ++ rest)) := by
    simp [memberLine]
  rw [text, readMembers_skip rfl, readMembers_skip rfl, readMembers_skip rfl, readMembers_quote whole,
    readValue_skip rfl, readValue_write (fuel + 1) value proper enough rest follows]
  rfl

private theorem memberLines_cons (member next : List Glyph × Doc) (more : List (List Glyph × Doc)) :
    memberLines (member :: next :: more) = memberLine member ++ ',' :: memberLines (next :: more) := by
  rw [memberLines]
  exact List.cons_ne_nil _ _

private theorem memberLine_length (member : List Glyph × Doc) :
    (write member.2).length + 5 ≤ (memberLine member).length := by
  simp only [memberLine, quote, List.length_append, List.length_cons]
  simp
  omega

private theorem readMembers_lines (fuel : Nat) (member : List Glyph × Doc) (more : List (List Glyph × Doc))
    (proper : Doc.ProperMembers (member :: more)) (enough : 2 * (memberLines (member :: more)).length ≤ fuel)
    (rest : Text) :
    readMembers fuel (memberLines (member :: more) ++ '\n' :: '}' :: rest) =
      some (Doc.legibleMembers (member :: more), rest) := by
  induction more generalizing member fuel with
  | nil =>
    obtain ⟨name, value⟩ := member
    have long := memberLine_length (name, value)
    rw [memberLines] at enough ⊢
    obtain ⟨less, rfl⟩ : ∃ less, fuel = less + 2 := ⟨fuel - 2, by omega⟩
    rw [readMembers_line proper.1 proper.2.1 (by simp only at long; omega)
      (follows_of (.inr (.inr (.inr rfl))) _), skipSpace_skip rfl, skipSpace_cons rfl]
    rfl
  | cons next more ih =>
    obtain ⟨name, value⟩ := member
    have long := memberLine_length (name, value)
    rw [memberLines_cons, List.length_append, List.length_cons] at enough
    obtain ⟨less, rfl⟩ : ∃ less, fuel = less + 2 := ⟨fuel - 2, by omega⟩
    rw [memberLines_cons, List.append_assoc, List.cons_append,
      readMembers_line proper.1 proper.2.1 (by simp only at long; omega) (follows_of (.inl rfl) _),
      skipSpace_cons rfl]
    simp only [ih (less + 1) next proper.2.2 (by omega)]
    rfl

/-- An object of at least one member is read back, whatever space follows it. -/
theorem parse_writeLines {member : List Glyph × Doc} {more : List (List Glyph × Doc)}
    (proper : Doc.ProperMembers (member :: more)) {rest : Text} (blank : skipSpace rest = []) :
    parse (writeLines (member :: more) ++ rest) = some (.obj (Doc.legibleMembers (member :: more))) := by
  have text : writeLines (member :: more) ++ rest =
      '{' :: (memberLines (member :: more) ++ '\n' :: '}' :: rest) := by
    simp [writeLines]
  have opens : ∃ tail, skipSpace (memberLines (member :: more) ++ '\n' :: '}' :: rest) = '"' :: tail ∧
      ∀ fuel, readMembers (fuel + 1) ('"' :: tail) =
        readMembers (fuel + 1) (memberLines (member :: more) ++ '\n' :: '}' :: rest) := by
    obtain ⟨tail, shape⟩ : ∃ tail, memberLines (member :: more) ++ '\n' :: '}' :: rest =
        '\n' :: ' ' :: ' ' :: '"' :: tail := by
      cases more with
      | nil => exact ⟨_, by simp [memberLines, memberLine, quote]; rfl⟩
      | cons next more => exact ⟨_, by rw [memberLines_cons]; simp [memberLine, quote]; rfl⟩
    refine ⟨tail, ?_, fun fuel => ?_⟩
    · rw [shape, skipSpace_skip rfl, skipSpace_skip rfl, skipSpace_skip rfl, skipSpace_cons rfl]
    · rw [shape]
      exact ((readMembers_skip rfl fuel _).trans
        ((readMembers_skip rfl fuel _).trans (readMembers_skip rfl fuel _))).symm
  obtain ⟨tail, skip, same⟩ := opens
  have read := readMembers_lines (2 * (writeLines (member :: more) ++ rest).length) member more proper
    (by rw [text]; simp; omega) rest
  obtain ⟨less, fuel⟩ : ∃ less, 2 * (writeLines (member :: more) ++ rest).length = less + 1 :=
    ⟨2 * (writeLines (member :: more) ++ rest).length - 1, by rw [text, List.length_cons]; omega⟩
  rw [fuel, ← same] at read
  rw [parse, fuel, text, readValue_obj skip (by decide), read]
  exact if_pos blank

end Dropway.Lib.JsonText
