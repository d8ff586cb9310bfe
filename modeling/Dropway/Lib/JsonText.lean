import Dropway.Lib.Json
import Dropway.Lib.Uri
import Mathlib.Data.Nat.Digits.Lemmas

/-! JSON texts: the grammar that every reader has, and a compact writer. What a
reader makes of names that occur twice, of half a surrogate pair or of malformed
bytes is its own affair, so a document keeps them all. -/

namespace Dropway.Lib

/-- A character of a string, or what stands where there is none. -/
inductive Glyph where
  | char (c : Char)
  /-- An escaped half of a surrogate pair. -/
  | surrogate (unit : Nat)
  /-- So many bytes that are the start of no character. -/
  | malformed (bytes : Nat)
  deriving DecidableEq

inductive Doc where
  | null
  | bool (value : Bool)
  | num (literal : Text)
  | str (value : List Glyph)
  | arr (items : List Doc)
  | obj (members : List (List Glyph × Doc))

/-- What a reader that is handed text has instead of malformed bytes. -/
def Glyph.legible : Glyph → Glyph
  | .malformed _ => .char Utf8.replacement
  | glyph => glyph

def Whole (value : List Glyph) : Prop := ∀ unit, .surrogate unit ∉ value

theorem whole_chars (text : Text) : Whole (text.map .char) := by
  intro unit mem
  obtain ⟨c, -, same⟩ := List.mem_map.mp mem
  cases same

namespace JsonText

def isSpace (c : Char) : Bool := [' ', '\t', '\n', '\r'].contains c

def skipSpace (text : Text) : Text := text.dropWhile isSpace

/-! ### Strings -/

def unescape : Char → Option Char
  | '"' => some '"'
  | '\\' => some '\\'
  | '/' => some '/'
  | 'b' => some '\x08'
  | 'f' => some '\x0C'
  | 'n' => some '\n'
  | 'r' => some '\r'
  | 't' => some '\t'
  | _ => none

def codeUnit (unit : Nat) : Glyph :=
  if 0xD800 ≤ unit ∧ unit ≤ 0xDFFF then .surrogate unit else .char (Char.ofNat unit)

/-- The rest of a string, after its opening quote. -/
def readString : Text → Option (List Glyph × Text)
  | [] => none
  | '"' :: rest => some ([], rest)
  | '\\' :: 'u' :: a :: b :: c :: d :: rest => do
    let high ← Uri.hexByte a b
    let low ← Uri.hexByte c d
    let (value, rest) ← readString rest
    return (codeUnit (high * 256 + low) :: value, rest)
  | '\\' :: c :: rest => do
    let c ← unescape c
    let (value, rest) ← readString rest
    return (.char c :: value, rest)
  | c :: rest =>
    if c < ' ' ∨ c = '\\' then none
    else (readString rest).map fun (value, rest) => (.char c :: value, rest)

/-- Two halves that follow each other are a pair. -/
def pairUp : List Glyph → List Glyph
  | .surrogate high :: .surrogate low :: rest =>
    if high < 0xDC00 ∧ 0xDC00 ≤ low then
      .char (Char.ofNat (0x10000 + (high - 0xD800) * 0x400 + (low - 0xDC00))) :: pairUp rest
    else .surrogate high :: pairUp (.surrogate low :: rest)
  | glyph :: rest => glyph :: pairUp rest
  | [] => []

/-! ### Numbers -/

def readInt : Text → Option (Text × Text)
  | '0' :: rest => some (['0'], rest)
  | text =>
    let digits := text.takeWhile Char.isDigit
    if digits = [] then none else some (digits, text.dropWhile Char.isDigit)

def readFraction : Text → Option (Text × Text)
  | '.' :: rest =>
    let digits := rest.takeWhile Char.isDigit
    if digits = [] then none else some ('.' :: digits, rest.dropWhile Char.isDigit)
  | text => some ([], text)

def readExponent : Text → Option (Text × Text)
  | [] => some ([], [])
  | c :: rest =>
    if c = 'e' ∨ c = 'E' then
      let sign := rest.take (if rest.head? = some '+' ∨ rest.head? = some '-' then 1 else 0)
      let rest := rest.drop sign.length
      let digits := rest.takeWhile Char.isDigit
      if digits = [] then none else some (c :: sign ++ digits, rest.dropWhile Char.isDigit)
    else some ([], c :: rest)

def readNumber (text : Text) : Option (Text × Text) := do
  let sign := text.take (if text.head? = some '-' then 1 else 0)
  let (digits, rest) ← readInt (text.drop sign.length)
  let (fraction, rest) ← readFraction rest
  let (exponent, rest) ← readExponent rest
  return (sign ++ digits ++ fraction ++ exponent, rest)

/-! ### Values -/

mutual

/-- A value and what follows it. The first argument bounds the nesting. -/
def readValue : Nat → Text → Option (Doc × Text)
  | 0, _ => none
  | n + 1, text =>
    match skipSpace text with
    | 'n' :: 'u' :: 'l' :: 'l' :: rest => some (.null, rest)
    | 't' :: 'r' :: 'u' :: 'e' :: rest => some (.bool true, rest)
    | 'f' :: 'a' :: 'l' :: 's' :: 'e' :: rest => some (.bool false, rest)
    | '"' :: rest => (readString rest).map fun (value, rest) => (.str (pairUp value), rest)
    | '[' :: rest =>
      match skipSpace rest with
      | ']' :: rest => some (.arr [], rest)
      | rest => (readItems n rest).map fun (items, rest) => (.arr items, rest)
    | '{' :: rest =>
      match skipSpace rest with
      | '}' :: rest => some (.obj [], rest)
      | rest => (readMembers n rest).map fun (members, rest) => (.obj members, rest)
    | text => (readNumber text).map fun (literal, rest) => (.num literal, rest)

def readItems : Nat → Text → Option (List Doc × Text)
  | 0, _ => none
  | n + 1, text => do
    let (item, rest) ← readValue n text
    match skipSpace rest with
    | ',' :: rest => (readItems n rest).map fun (items, rest) => (item :: items, rest)
    | ']' :: rest => some ([item], rest)
    | _ => none

def readMembers : Nat → Text → Option (List (List Glyph × Doc) × Text)
  | 0, _ => none
  | n + 1, text =>
    match skipSpace text with
    | '"' :: rest => do
      let (name, rest) ← readString rest
      match skipSpace rest with
      | ':' :: rest =>
        let (value, rest) ← readValue n rest
        let member := (pairUp name, value)
        match skipSpace rest with
        | ',' :: rest => (readMembers n rest).map fun (members, rest) => (member :: members, rest)
        | '}' :: rest => some ([member], rest)
        | _ => none
      | _ => none
    | _ => none

end

/-- A text that is one value. -/
def parse (text : Text) : Option Doc :=
  match readValue (2 * text.length + 1) text with
  | some (doc, rest) => if skipSpace rest = [] then some doc else none
  | none => none

/-! ### The writer -/

def hexLower (value : Nat) : Char :=
  Char.ofNat (if value < 10 then '0'.toNat + value else 'a'.toNat + (value - 10))

def escapeUnit (unit : Nat) : Text :=
  ['\\', 'u', hexLower (unit / 4096), hexLower (unit / 256 % 16), hexLower (unit / 16 % 16),
    hexLower (unit % 16)]

/-- What would end a script, or a line of one, is escaped too. -/
def escapes (c : Char) : Bool :=
  c < ' ' || ['<', '>', '&'].contains c || c.toNat = 0x2028 || c.toNat = 0x2029

def quoteChar (c : Char) : Text :=
  if c = '"' ∨ c = '\\' then ['\\', c]
  else if c = '\x08' then ['\\', 'b']
  else if c = '\x0C' then ['\\', 'f']
  else if c = '\n' then ['\\', 'n']
  else if c = '\r' then ['\\', 'r']
  else if c = '\t' then ['\\', 't']
  else if escapes c then escapeUnit c.toNat
  else [c]

def quoteGlyph : Glyph → Text
  | .char c => quoteChar c
  | .surrogate unit => escapeUnit unit
  | .malformed _ => escapeUnit 0xFFFD

def quote (value : List Glyph) : Text := '"' :: value.flatMap quoteGlyph ++ ['"']

def decimal (n : Nat) : Text :=
  if n = 0 then ['0'] else ((Nat.digits 10 n).map fun d => Char.ofNat (d + 48)).reverse

mutual

def write : Doc → Text
  | .null => "null".toList
  | .bool value => if value then "true".toList else "false".toList
  | .num literal => literal
  | .str value => quote value
  | .arr items => '[' :: writeItems items ++ [']']
  | .obj members => '{' :: writeMembers members ++ ['}']

def writeItems : List Doc → Text
  | [] => []
  | [item] => write item
  | item :: rest => write item ++ ',' :: writeItems rest

def writeMembers : List (List Glyph × Doc) → Text
  | [] => []
  | [(name, value)] => quote name ++ ':' :: write value
  | (name, value) :: rest => quote name ++ ':' :: write value ++ ',' :: writeMembers rest

end

end JsonText

mutual

/-- The strings have no half of a pair, and the numbers are natural. -/
def Doc.Proper : Doc → Prop
  | .num literal => ∃ n, literal = JsonText.decimal n
  | .str value => Whole value
  | .arr items => Doc.ProperItems items
  | .obj members => Doc.ProperMembers members
  | .null | .bool _ => True

def Doc.ProperItems : List Doc → Prop
  | [] => True
  | item :: rest => item.Proper ∧ Doc.ProperItems rest

def Doc.ProperMembers : List (List Glyph × Doc) → Prop
  | [] => True
  | (name, value) :: rest => Whole name ∧ value.Proper ∧ Doc.ProperMembers rest

end

mutual

def Doc.legible : Doc → Doc
  | .str value => .str (value.map Glyph.legible)
  | .arr items => .arr (Doc.legibleItems items)
  | .obj members => .obj (Doc.legibleMembers members)
  | .num literal => .num literal
  | .null => .null
  | .bool value => .bool value

def Doc.legibleItems : List Doc → List Doc
  | [] => []
  | item :: rest => item.legible :: Doc.legibleItems rest

def Doc.legibleMembers : List (List Glyph × Doc) → List (List Glyph × Doc)
  | [] => []
  | (name, value) :: rest => (name.map Glyph.legible, value.legible) :: Doc.legibleMembers rest

end

theorem Doc.properMembers_iff {members : List (List Glyph × Doc)} :
    Doc.ProperMembers members ↔ ∀ member ∈ members, Whole member.1 ∧ member.2.Proper := by
  induction members with
  | nil => simp [Doc.ProperMembers]
  | cons member rest ih =>
    obtain ⟨name, value⟩ := member
    rw [Doc.ProperMembers, ih, List.forall_mem_cons, and_assoc]

theorem Doc.legibleMembers_eq_map (members : List (List Glyph × Doc)) :
    Doc.legibleMembers members =
      members.map fun member => (member.1.map Glyph.legible, member.2.legible) := by
  induction members with
  | nil => rfl
  | cons member rest ih =>
    obtain ⟨name, value⟩ := member
    rw [Doc.legibleMembers, ih, List.map_cons]

namespace JsonText

/-! ### What is written is read back -/

private theorem hexValue_hexLower {n : Nat} (small : n < 16) : Uri.hexValue (hexLower n) = some n := by
  interval_cases n <;> rfl

private theorem hexByte_hexLower {high low : Nat} (one : high < 16) (two : low < 16) :
    Uri.hexByte (hexLower high) (hexLower low) = some (high * 16 + low) := by
  simp [Uri.hexByte, hexValue_hexLower one, hexValue_hexLower two]

private theorem readString_escapeUnit {unit : Nat} (small : unit < 65536) (rest : Text) :
    readString (escapeUnit unit ++ rest) =
      (readString rest).map fun (value, rest) => (codeUnit unit :: value, rest) := by
  simp only [escapeUnit, List.cons_append, List.nil_append, readString]
  rw [hexByte_hexLower (by omega) (by omega), hexByte_hexLower (by omega) (by omega)]
  have whole : (unit / 4096 * 16 + unit / 256 % 16) * 256 + (unit / 16 % 16 * 16 + unit % 16) = unit := by
    omega
  cases readString rest <;> simp [whole]

private theorem escapes_unit {c : Char} (special : escapes c = true) :
    c.toNat < 65536 ∧ codeUnit c.toNat = .char c := by
  have small : c.toNat < 0xD800 := by
    simp only [escapes, Bool.or_eq_true, decide_eq_true_eq, List.contains_iff_mem] at special
    rcases special with ((control | marked) | line) | line
    · have below : c.toNat < ' '.toNat := control
      simp at below; omega
    · simp only [List.mem_cons, List.not_mem_nil, or_false] at marked
      rcases marked with rfl | rfl | rfl <;> decide
    · omega
    · omega
  refine ⟨by omega, ?_⟩
  rw [codeUnit, if_neg (by omega), Char.ofNat_toNat]

private theorem readString_escape {e c : Char} (escape : unescape e = some c) (rest : Text) :
    readString ('\\' :: e :: rest) = (readString rest).map fun (value, rest) => (.char c :: value, rest) := by
  have plain : e ≠ 'u' := by
    rintro rfl
    cases escape
  rw [readString]
  · rw [escape]
    cases readString rest <;> rfl
  · intro a b c d more same _
    exact plain same

private theorem readString_literal {c : Char} (quoteless : c ≠ '"') (straight : c ≠ '\\') (visible : ¬ c < ' ')
    (rest : Text) :
    readString (c :: rest) = (readString rest).map fun (value, rest) => (.char c :: value, rest) := by
  rw [readString]
  · rw [if_neg (by simp [visible, straight])]
  · exact quoteless
  · intro a b c d more same _
    exact straight same
  · intro e more same _
    exact straight same

private theorem readString_quoteChar (c : Char) (rest : Text) :
    readString (quoteChar c ++ rest) =
      (readString rest).map fun (value, rest) => (.char c :: value, rest) := by
  unfold quoteChar
  split
  · rename_i quoted
    rcases quoted with rfl | rfl
    · exact readString_escape rfl rest
    · exact readString_escape rfl rest
  rename_i unquoted
  obtain ⟨quoteless, straight⟩ := not_or.mp unquoted
  split
  · rename_i same
    exact same ▸ readString_escape rfl rest
  split
  · rename_i same
    exact same ▸ readString_escape rfl rest
  split
  · rename_i same
    exact same ▸ readString_escape rfl rest
  split
  · rename_i same
    exact same ▸ readString_escape rfl rest
  split
  · rename_i same
    exact same ▸ readString_escape rfl rest
  split
  · rename_i special
    obtain ⟨small, same⟩ := escapes_unit special
    rw [readString_escapeUnit small, same]
  · rename_i plain
    apply readString_literal quoteless straight
    intro control
    simp [escapes, control] at plain

private theorem pairUp_whole {value : List Glyph} (whole : Whole value) : pairUp value = value := by
  induction value with
  | nil => rfl
  | cons glyph rest ih =>
    have later : pairUp rest = rest := ih fun unit mem => whole unit (List.mem_cons_of_mem _ mem)
    cases glyph with
    | surrogate unit => exact absurd List.mem_cons_self (whole unit)
    | char c => rw [pairUp, later]; simp
    | malformed bytes => rw [pairUp, later]; simp

private theorem readString_quoteGlyph {glyph : Glyph} (whole : ∀ unit, glyph ≠ .surrogate unit) (rest : Text) :
    readString (quoteGlyph glyph ++ rest) =
      (readString rest).map fun (value, rest) => (glyph.legible :: value, rest) := by
  cases glyph with
  | char c => exact readString_quoteChar c rest
  | surrogate unit => exact absurd rfl (whole unit)
  | malformed bytes => exact readString_escapeUnit (by decide) rest

private theorem readString_quote {value : List Glyph} (whole : Whole value) (rest : Text) :
    readString (value.flatMap quoteGlyph ++ '"' :: rest) = some (value.map Glyph.legible, rest) := by
  induction value with
  | nil => rfl
  | cons glyph more ih =>
    have here : ∀ unit, glyph ≠ .surrogate unit := by
      rintro unit rfl
      exact whole unit List.mem_cons_self
    rw [List.flatMap_cons, List.append_assoc, readString_quoteGlyph here,
      ih fun unit mem => whole unit (List.mem_cons_of_mem _ mem)]
    rfl

private theorem legible_whole {value : List Glyph} (whole : Whole value) :
    Whole (value.map Glyph.legible) := by
  intro unit mem
  obtain ⟨glyph, present, same⟩ := List.mem_map.mp mem
  cases glyph with
  | surrogate => exact whole _ present
  | _ => cases same

private theorem digit_isDigit {d : Nat} (small : d < 10) : (Char.ofNat (d + 48)).isDigit = true := by
  interval_cases d <;> rfl

theorem decimal_digits (n : Nat) : decimal n ≠ [] ∧ ∀ c ∈ decimal n, c.isDigit = true := by
  unfold decimal
  split
  · simp
  · rename_i positive
    refine ⟨?_, fun c mem => ?_⟩
    · rw [ne_eq, List.reverse_eq_nil_iff, List.map_eq_nil_iff]
      exact Nat.digits_ne_nil_iff_ne_zero.mpr positive
    obtain ⟨d, present, rfl⟩ := List.mem_map.mp (List.mem_reverse.mp mem)
    exact digit_isDigit (Nat.digits_lt_base (by decide) present)

theorem decimal_head {n : Nat} (positive : n ≠ 0) : (decimal n).head? ≠ some '0' := by
  rw [decimal, if_neg positive, List.head?_reverse, List.getLast?_map]
  intro same
  obtain ⟨d, last, zero⟩ := Option.map_eq_some_iff.mp same
  have nonzero := Nat.getLast_digit_ne_zero 10 positive
  have inside : d ∈ Nat.digits 10 n := List.mem_of_getLast? last
  have small := Nat.digits_lt_base (by decide) inside
  rw [List.getLast?_eq_some_getLast (Nat.digits_ne_nil_iff_ne_zero.mpr positive)] at last
  cases last
  revert zero nonzero small
  generalize (Nat.digits 10 n).getLast _ = d
  intro small zero nonzero
  interval_cases d <;> simp_all

/-- What may follow a value. -/
def Follows (rest : Text) : Prop := ∀ c ∈ rest.head?, c = ',' ∨ c = ']' ∨ c = '}' ∨ c = '\n'

private theorem Follows.span {rest : Text} (follows : Follows rest) {digits : Text}
    (all : ∀ c ∈ digits, c.isDigit = true) :
    (digits ++ rest).takeWhile Char.isDigit = digits ∧ (digits ++ rest).dropWhile Char.isDigit = rest := by
  have stops : rest.takeWhile Char.isDigit = [] ∧ rest.dropWhile Char.isDigit = rest := by
    cases rest with
    | nil => simp
    | cons c more =>
      rcases follows c rfl with rfl | rfl | rfl | rfl <;> simp [List.takeWhile, List.dropWhile]
  rw [List.takeWhile_append_of_pos all, List.dropWhile_append_of_pos all, stops.1, stops.2,
    List.append_nil]
  exact ⟨rfl, rfl⟩

private theorem readNumber_decimal {n : Nat} {rest : Text} (follows : Follows rest) :
    readNumber (decimal n ++ rest) = some (decimal n, rest) := by
  obtain ⟨nonempty, all⟩ := decimal_digits n
  have unsigned : (decimal n ++ rest).head? ≠ some '-' := by
    obtain ⟨c, more, same⟩ := List.exists_cons_of_ne_nil nonempty
    rw [same]
    have digit := all c (same ▸ List.mem_cons_self)
    rintro ⟨⟩
    cases digit
  have int : readInt (decimal n ++ rest) = some (decimal n, rest) := by
    by_cases zero : n = 0
    · subst zero
      rfl
    · obtain ⟨taken, dropped⟩ := follows.span all
      rw [readInt]
      · simp [taken, dropped, nonempty]
      · intro more same
        apply decimal_head zero
        rw [← List.head?_append_of_ne_nil _ nonempty, same]
        rfl
  have fraction : readFraction rest = some ([], rest) := by
    rw [readFraction]
    intro more same
    rcases follows '.' (by rw [same]; rfl) with bad | bad | bad | bad <;> cases bad
  have exponent : readExponent rest = some ([], rest) := by
    cases rest with
    | nil => rfl
    | cons c more =>
      rcases follows c rfl with rfl | rfl | rfl | rfl <;> rfl
  rw [readNumber, if_neg unsigned, List.take_zero, List.length_nil, List.drop_zero, int]
  simp [fraction, exponent]

/-- No text of a value starts with a space or a closing bracket. -/
private theorem write_head (doc : Doc) (proper : doc.Proper) :
    ∃ c rest, write doc = c :: rest ∧ isSpace c = false ∧ c ≠ ']' := by
  cases doc with
  | null => exact ⟨_, _, rfl, rfl, by decide⟩
  | bool value => cases value <;> exact ⟨_, _, rfl, rfl, by decide⟩
  | num literal =>
    obtain ⟨n, rfl⟩ := proper
    obtain ⟨nonempty, all⟩ := decimal_digits n
    obtain ⟨c, rest, same⟩ := List.exists_cons_of_ne_nil nonempty
    have digit := all c (same ▸ List.mem_cons_self)
    refine ⟨c, rest, same, ?_, ?_⟩
    · cases space : isSpace c with
      | false => rfl
      | true =>
        simp only [isSpace, List.contains_iff_mem, List.mem_cons, List.not_mem_nil, or_false] at space
        rcases space with rfl | rfl | rfl | rfl <;> cases digit
    · rintro rfl
      cases digit
  | str value => exact ⟨_, _, by rw [write, quote, List.cons_append], rfl, by decide⟩
  | arr items => exact ⟨_, _, by rw [write, List.cons_append], rfl, by decide⟩
  | obj members => exact ⟨_, _, by rw [write, List.cons_append], rfl, by decide⟩

theorem skipSpace_cons {c : Char} (visible : isSpace c = false) (rest : Text) :
    skipSpace (c :: rest) = c :: rest := by
  rw [skipSpace, List.dropWhile_cons_of_neg]
  simp [visible]

private theorem readValue_decimal {n fuel : Nat} {rest : Text} (follows : Follows rest) :
    readValue (fuel + 1) (decimal n ++ rest) = some (.num (decimal n), rest) := by
  obtain ⟨nonempty, all⟩ := decimal_digits n
  obtain ⟨c, more, same⟩ := List.exists_cons_of_ne_nil nonempty
  have digit := all c (same ▸ List.mem_cons_self)
  obtain ⟨d, tail, head, visible, -⟩ := write_head (.num (decimal n)) ⟨n, rfl⟩
  have skip : skipSpace (decimal n ++ rest) = decimal n ++ rest := by
    rw [show decimal n = d :: tail from head]
    exact skipSpace_cons visible _
  have number := readNumber_decimal (n := n) follows
  have start : decimal n ++ rest = c :: (more ++ rest) := by
    rw [same]
    rfl
  rw [readValue, skip]
  split
  case h_7 => rw [number]; rfl
  all_goals
    rename_i found
    have head := congrArg List.head? (start.symm.trans found)
    cases head
    cases digit

private theorem write_length {doc : Doc} (proper : doc.Proper) : 1 ≤ (write doc).length := by
  obtain ⟨c, rest, same, -⟩ := write_head _ proper
  rw [same, List.length_cons]
  omega

theorem follows_of {c : Char} (ends : c = ',' ∨ c = ']' ∨ c = '}' ∨ c = '\n') (rest : Text) :
    Follows (c :: rest) := by
  intro d head
  cases head
  exact ends

private theorem readValue_arr {fuel : Nat} {text rest : Text} {c : Char} (skip : skipSpace text = c :: rest)
    (more : c ≠ ']') : readValue (fuel + 1) ('[' :: text) =
      (readItems fuel (c :: rest)).map fun (items, rest) => (.arr items, rest) := by
  simp only [readValue, skipSpace_cons (show isSpace '[' = false from rfl), skip]
  split
  · rename_i found
    cases found
    exact absurd rfl more
  · rfl

theorem readValue_obj {fuel : Nat} {text rest : Text} {c : Char} (skip : skipSpace text = c :: rest)
    (more : c ≠ '}') : readValue (fuel + 1) ('{' :: text) =
      (readMembers fuel (c :: rest)).map fun (members, rest) => (.obj members, rest) := by
  simp only [readValue, skipSpace_cons (show isSpace '{' = false from rfl), skip]
  split
  · rename_i found
    cases found
    exact absurd rfl more
  · rfl

private theorem readItems_last {fuel : Nat} {text rest : Text} {item : Doc}
    (value : readValue fuel text = some (item, ']' :: rest)) :
    readItems (fuel + 1) text = some ([item], rest) := by
  simp only [readItems, value, Option.bind_eq_bind, Option.bind_some,
    skipSpace_cons (show isSpace ']' = false from rfl)]

private theorem readItems_more {fuel : Nat} {text rest : Text} {item : Doc}
    (value : readValue fuel text = some (item, ',' :: rest)) :
    readItems (fuel + 1) text = (readItems fuel rest).map fun (items, rest) => (item :: items, rest) := by
  simp only [readItems, value, Option.bind_eq_bind, Option.bind_some,
    skipSpace_cons (show isSpace ',' = false from rfl)]

theorem readMembers_quote {fuel : Nat} {name : List Glyph} (whole : Whole name) (rest : Text) :
    readMembers (fuel + 1) (quote name ++ ':' :: rest) =
      (readValue fuel rest).bind fun (value, rest) =>
        match skipSpace rest with
        | ',' :: rest => (readMembers fuel rest).map fun (members, rest) =>
            ((name.map Glyph.legible, value) :: members, rest)
        | '}' :: rest => some ([(name.map Glyph.legible, value)], rest)
        | _ => none := by
  have read := readString_quote whole (':' :: rest)
  simp only [quote, List.cons_append, List.append_assoc, List.nil_append, readMembers,
    skipSpace_cons (show isSpace '"' = false from rfl), read, Option.bind_eq_bind, Option.bind_some,
    skipSpace_cons (show isSpace ':' = false from rfl), pairUp_whole (legible_whole whole)]

private theorem readMembers_last {fuel : Nat} {name : List Glyph} (whole : Whole name) {text rest : Text}
    {doc : Doc} (value : readValue fuel text = some (doc, '}' :: rest)) :
    readMembers (fuel + 1) (quote name ++ ':' :: text) = some ([(name.map Glyph.legible, doc)], rest) := by
  rw [readMembers_quote whole, value]
  simp only [Option.bind_some, skipSpace_cons (show isSpace '}' = false from rfl)]

private theorem readMembers_more {fuel : Nat} {name : List Glyph} (whole : Whole name) {text rest : Text}
    {doc : Doc} (value : readValue fuel text = some (doc, ',' :: rest)) :
    readMembers (fuel + 1) (quote name ++ ':' :: text) =
      (readMembers fuel rest).map fun (members, rest) => ((name.map Glyph.legible, doc) :: members, rest) := by
  rw [readMembers_quote whole, value]
  simp only [Option.bind_some, skipSpace_cons (show isSpace ',' = false from rfl)]

private theorem writeItems_cons (item next : Doc) (more : List Doc) :
    writeItems (item :: next :: more) = write item ++ ',' :: writeItems (next :: more) := by
  rw [writeItems]
  exact List.cons_ne_nil _ _

private theorem writeMembers_cons (name : List Glyph) (value : Doc) (next : List Glyph × Doc)
    (more : List (List Glyph × Doc)) : writeMembers ((name, value) :: next :: more) =
      quote name ++ ':' :: write value ++ ',' :: writeMembers (next :: more) := by
  rw [writeMembers]
  exact List.cons_ne_nil _ _

private theorem writeItems_head (item : Doc) (more : List Doc) (proper : item.Proper) :
    ∃ c rest, writeItems (item :: more) = c :: rest ∧ isSpace c = false ∧ c ≠ ']' := by
  obtain ⟨c, rest, same, visible, opens⟩ := write_head _ proper
  cases more with
  | nil => exact ⟨c, rest, same, visible, opens⟩
  | cons next more => exact ⟨c, _, by rw [writeItems_cons, same, List.cons_append], visible, opens⟩

private theorem writeMembers_head (name : List Glyph) (value : Doc) (more : List (List Glyph × Doc)) :
    ∃ rest, writeMembers ((name, value) :: more) = '"' :: rest := by
  cases more with
  | nil => exact ⟨_, by rw [writeMembers, quote, List.cons_append, List.cons_append]⟩
  | cons next more =>
    exact ⟨_, by rw [writeMembers_cons, quote, List.cons_append, List.cons_append, List.cons_append]⟩

mutual

theorem readValue_write (fuel : Nat) (doc : Doc) (proper : doc.Proper)
    (enough : 2 * (write doc).length ≤ fuel) (rest : Text) (follows : Follows rest) :
    readValue fuel (write doc ++ rest) = some (doc.legible, rest) := by
  have long := write_length proper
  cases fuel with
  | zero => omega
  | succ fuel =>
    cases doc with
    | null => rfl
    | bool value => cases value <;> rfl
    | num literal =>
      obtain ⟨n, rfl⟩ := proper
      exact readValue_decimal follows
    | str value =>
      have read := readString_quote proper rest
      simp only [write, quote, List.cons_append, List.append_assoc, List.nil_append, readValue,
        skipSpace_cons (show isSpace '"' = false from rfl), read, Option.map_some, Doc.legible,
        pairUp_whole (legible_whole proper)]
    | arr items =>
      cases items with
      | nil => rfl
      | cons item more =>
        simp only [write, List.length_append, List.length_cons, List.length_nil] at enough
        obtain ⟨c, tail, head, visible, opens⟩ := writeItems_head item more proper.1
        have read := readItems_write fuel item more proper (by omega) rest
        have text : write (.arr (item :: more)) ++ rest = '[' :: c :: (tail ++ ']' :: rest) := by
          simp [write, head]
        rw [head, List.cons_append] at read
        rw [text, readValue_arr (skipSpace_cons visible _) opens, read]
        rfl
    | obj members =>
      cases members with
      | nil => rfl
      | cons member more =>
        obtain ⟨name, value⟩ := member
        simp only [write, List.length_append, List.length_cons, List.length_nil] at enough
        obtain ⟨tail, head⟩ := writeMembers_head name value more
        have read := readMembers_write fuel name value more proper (by omega) rest
        have text : write (.obj ((name, value) :: more)) ++ rest = '{' :: '"' :: (tail ++ '}' :: rest) := by
          simp [write, head]
        rw [head, List.cons_append] at read
        rw [text, readValue_obj (skipSpace_cons (c := '"') rfl _) (by decide), read]
        rfl

private theorem readItems_write (fuel : Nat) (item : Doc) (more : List Doc)
    (proper : Doc.ProperItems (item :: more)) (enough : 2 * (writeItems (item :: more)).length + 1 ≤ fuel) (rest : Text) :
    readItems fuel (writeItems (item :: more) ++ ']' :: rest) =
      some (Doc.legibleItems (item :: more), rest) := by
  cases fuel with
  | zero => omega
  | succ fuel =>
    cases more with
    | nil =>
      rw [writeItems] at enough ⊢
      exact readItems_last (readValue_write fuel item proper.1 (by omega) _ (follows_of (.inr (.inl rfl)) rest))
    | cons next more =>
      simp only [writeItems_cons, List.length_append, List.length_cons] at enough
      rw [writeItems_cons, List.append_assoc, List.cons_append, readItems_more (readValue_write fuel item proper.1
        (by omega) _ (follows_of (.inl rfl) _)), readItems_write fuel next more proper.2 (by omega) rest]
      rfl

private theorem readMembers_write (fuel : Nat) (name : List Glyph) (value : Doc)
    (more : List (List Glyph × Doc)) (proper : Doc.ProperMembers ((name, value) :: more))
    (enough : 2 * (writeMembers ((name, value) :: more)).length + 1 ≤ fuel) (rest : Text) :
    readMembers fuel (writeMembers ((name, value) :: more) ++ '}' :: rest) =
      some (Doc.legibleMembers ((name, value) :: more), rest) := by
  cases fuel with
  | zero => omega
  | succ fuel =>
    cases more with
    | nil =>
      simp only [writeMembers, List.length_append, List.length_cons] at enough
      rw [writeMembers, List.append_assoc, List.cons_append]
      exact readMembers_last proper.1 (readValue_write fuel value proper.2.1 (by omega) _
        (follows_of (.inr (.inr (.inl rfl))) rest))
    | cons next more =>
      obtain ⟨name', value'⟩ := next
      simp only [writeMembers_cons, List.length_append, List.length_cons] at enough
      rw [writeMembers_cons, List.append_assoc, List.append_assoc, List.cons_append, List.cons_append,
        readMembers_more proper.1 (readValue_write fuel value proper.2.1 (by omega) _ (follows_of (.inl rfl) _)),
        readMembers_write fuel name' value' more proper.2.2 (by omega) rest]
      rfl

end

theorem read_write {doc : Doc} (proper : doc.Proper) :
    readValue (2 * (write doc).length + 1) (write doc) = some (doc.legible, []) := by
  have read := readValue_write (2 * (write doc).length + 1) doc proper (by omega) []
    (by simp [Follows])
  rwa [List.append_nil] at read

theorem parse_write {doc : Doc} (proper : doc.Proper) : parse (write doc) = some doc.legible := by
  rw [parse, read_write proper]
  rfl

end JsonText
end Dropway.Lib
