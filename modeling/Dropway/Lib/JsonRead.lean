import Dropway.Lib.JsonText
import Dropway.Lib.Runes

/-! What two languages make of a JSON document. JavaScript builds a value, in
which the last of two members of one name counts. Go reads the members it asks
for, and its strings are bytes. -/

namespace Dropway.Lib

/-- Of the members with one name, the last. -/
def lastOfEach {α κ : Type} [DecidableEq κ] (key : α → κ) : List α → List α
  | [] => []
  | item :: rest =>
    if rest.any (fun later => key later = key item) then lastOfEach key rest
    else item :: lastOfEach key rest

/-- The last member with a name. -/
def lastWith {α κ : Type} [DecidableEq κ] (key : α → κ) (name : κ) (items : List α) : Option α :=
  items.reverse.find? fun item => key item = name

theorem lastWith_cons {α κ : Type} [DecidableEq κ] (key : α → κ) (name : κ) (item : α) (rest : List α) :
    lastWith key name (item :: rest) =
      (lastWith key name rest).or (if key item = name then some item else none) := by
  rw [lastWith, List.reverse_cons, List.find?_append, ← lastWith]
  by_cases same : key item = name <;> simp [same]

theorem lastWith_isSome {α κ : Type} [DecidableEq κ] {key : α → κ} {name : κ} {items : List α} :
    (lastWith key name items).isSome ↔ ∃ item ∈ items, key item = name := by
  rw [lastWith, List.find?_isSome]
  simp

/-- Dropping what is overtaken leaves every last member. -/
theorem lastWith_lastOfEach {α κ : Type} [DecidableEq κ] (key : α → κ) (name : κ) (items : List α) :
    lastWith key name (lastOfEach key items) = lastWith key name items := by
  induction items with
  | nil => rfl
  | cons item rest ih =>
    rw [lastOfEach, lastWith_cons]
    split
    · rename_i overtaken
      rw [ih]
      by_cases same : key item = name
      · obtain ⟨later, mem, equal⟩ := List.any_eq_true.mp overtaken
        have found : (lastWith key name rest).isSome :=
          lastWith_isSome.mpr ⟨later, mem, (of_decide_eq_true equal).trans same⟩
        obtain ⟨last, found⟩ := Option.isSome_iff_exists.mp found
        rw [found]
        rfl
      · rw [if_neg same, Option.or_none]
    · rw [lastWith_cons, ih]

section

variable {α κ : Type} [DecidableEq κ] {key : α → κ} {name : κ} {item : α} {items : List α}

theorem lastWith_append (front back : List α) :
    lastWith key name (front ++ back) = (lastWith key name back).or (lastWith key name front) := by
  rw [lastWith, List.reverse_append, List.find?_append]
  rfl

theorem lastWith_distinct (distinct : (items.map key).Nodup) :
    lastWith key name items = some item ↔ item ∈ items ∧ key item = name := by
  induction items with
  | nil =>
    exact ⟨fun found => (by cases found), fun ⟨mem, _⟩ => (by cases mem)⟩
  | cons first rest ih =>
    rw [List.map_cons, List.nodup_cons] at distinct
    rw [lastWith_cons, Option.or_eq_some_iff, ih distinct.2, List.mem_cons]
    constructor
    · rintro (⟨mem, same⟩ | ⟨-, here⟩)
      · exact ⟨.inr mem, same⟩
      · split at here
        · cases here
          exact ⟨.inl rfl, ‹_›⟩
        · cases here
    · rintro ⟨rfl | mem, same⟩
      · refine .inr ⟨?_, if_pos same⟩
        rw [← Option.not_isSome_iff_eq_none, lastWith_isSome]
        rintro ⟨other, mem, also⟩
        exact distinct.1 (List.mem_map.mpr ⟨other, mem, also.trans same.symm⟩)
      · exact .inl ⟨mem, same⟩

theorem lastOfEach_sublist : (lastOfEach key items).Sublist items := by
  induction items with
  | nil => exact List.Sublist.slnil
  | cons item rest ih =>
    rw [lastOfEach]
    split
    · exact ih.cons item
    · exact ih.cons_cons item

theorem lastOfEach_nodup : ((lastOfEach key items).map key).Nodup := by
  induction items with
  | nil => exact List.nodup_nil
  | cons item rest ih =>
    rw [lastOfEach]
    split
    · exact ih
    · rename_i latest
      rw [List.map_cons, List.nodup_cons]
      refine ⟨fun mem => latest ?_, ih⟩
      obtain ⟨later, kept, same⟩ := List.mem_map.mp mem
      exact List.any_eq_true.mpr ⟨later, lastOfEach_sublist.subset kept, decide_eq_true same⟩

theorem lastOfEach_distinct (distinct : (items.map key).Nodup) : lastOfEach key items = items := by
  induction items with
  | nil => rfl
  | cons first rest ih =>
    rw [List.map_cons, List.nodup_cons] at distinct
    have latest : ¬ (rest.any fun later => decide (key later = key first)) = true := by
      intro overtaken
      obtain ⟨later, mem, same⟩ := List.any_eq_true.mp overtaken
      exact distinct.1 (List.mem_map.mpr ⟨later, mem, of_decide_eq_true same⟩)
    rw [lastOfEach, if_neg latest, ih distinct.2]

end

/-! ### JavaScript -/

namespace JsonText

def natValue (digits : Text) : Nat := digits.foldl (fun n c => n * 10 + (c.toNat - 48)) 0

/-- A whole number that may have a sign. -/
def intValue : Text → Int
  | '-' :: digits => -(natValue digits)
  | '+' :: digits => natValue digits
  | digits => natValue digits

/-- The number that a literal denotes, before it is rounded. -/
def literalValue (literal : Text) : Rat :=
  let body := if literal.head? = some '-' then literal.tail else literal
  let whole := body.takeWhile Char.isDigit
  let rest := body.drop whole.length
  let fraction := if rest.head? = some '.' then rest.tail.takeWhile Char.isDigit else []
  let exponent := intValue (rest.dropWhile fun c => c ≠ 'e' ∧ c ≠ 'E').tail
  let size : Rat := natValue (whole ++ fraction) * (10 : Rat) ^ (exponent - fraction.length)
  if literal.head? = some '-' then -size else size

/-- The exponent of the unit in the last place of a double near a positive `q`. -/
def ulpExponent (q : Rat) : Int :=
  let log := (Nat.log2 q.num.natAbs : Int) - Nat.log2 q.den
  max ((if (2 : Rat) ^ log ≤ q then log else log - 1) - 52) (-1074)

def roundHalfEven (q : Rat) : Int :=
  let below := q.floor
  let rest := q - below
  if rest < 1 / 2 ∨ (rest = 1 / 2 ∧ below % 2 = 0) then below else below + 1

/-- The double nearest to `q`, unless that is an infinity. -/
def nearestDouble (q : Rat) : Option Rat :=
  if q = 0 then some 0
  else
    let size := if q < 0 then -q else q
    let unit := (2 : Rat) ^ ulpExponent size
    let rounded := roundHalfEven (size / unit) * unit
    if (2 : Rat) ^ (1024 : Nat) ≤ rounded then none else some (if q < 0 then -rounded else rounded)

end JsonText

/-- Half of a pair has no place in a text, and reads as U+FFFD here. -/
def Glyph.letter : Glyph → Char
  | .char c => c
  | .surrogate _ => Utf8.replacement
  | .malformed _ => Utf8.replacement

def jsString (value : List Glyph) : String := String.ofList (value.map Glyph.letter)

/-- A name as JavaScript has it. -/
def jsName (name : List Glyph) : List Glyph := name.map Glyph.legible

/-- The value at a name of an object that the members make up. -/
def Doc.own (members : List (List Glyph × Doc)) (name : Text) : Option Doc :=
  (lastWith (fun member => jsName member.1) (name.map .char) members).map (·.2)

/-- A later member of the same name takes the place of the earlier. -/
def Json.assign (members : List (String × Json)) (name : String) (value : Json) : List (String × Json) :=
  if members.any (·.1 = name) then
    members.map fun member => if member.1 = name then (name, value) else member
  else members ++ [(name, value)]

mutual

/-- What `JSON.parse` builds. An infinity, which is no number here, reads as `null`. -/
def Doc.value : Doc → Json
  | .null => .null
  | .bool value => .bool value
  | .num literal => ((JsonText.nearestDouble (JsonText.literalValue literal)).map .num).getD .null
  | .str value => .str (jsString value)
  | .arr items => .arr (Doc.values items)
  | .obj members => .obj (Doc.assignAll [] members)

def Doc.values : List Doc → List Json
  | [] => []
  | item :: rest => item.value :: Doc.values rest

def Doc.assignAll (before : List (String × Json)) : List (List Glyph × Doc) → List (String × Json)
  | [] => before
  | (name, value) :: rest => Doc.assignAll (Json.assign before (jsString name) value.value) rest

end

@[simp] theorem jsString_chars (text : Text) : jsString (text.map .char) = String.ofList text := by
  rw [jsString, List.map_map]
  exact congrArg String.ofList (List.map_id text)

/-- Members of distinct names are all kept, in their order. -/
theorem Doc.assignAll_distinct {fields : List (String × Doc)} (before : List (String × Json))
    (distinct : (before.map (·.1) ++ fields.map (·.1)).Nodup) :
    Doc.assignAll before (fields.map fun field => (field.1.toList.map .char, field.2)) =
      before ++ fields.map fun field => (field.1, field.2.value) := by
  induction fields generalizing before with
  | nil => simp [Doc.assignAll]
  | cons field rest ih =>
    obtain ⟨name, value⟩ := field
    have fresh : before.any (fun member => decide (member.1 = name)) = false := by
      rw [List.any_eq_false]
      intro member mem same
      obtain ⟨-, -, apart⟩ := List.nodup_append.mp distinct
      exact apart member.1 (List.mem_map_of_mem mem) name List.mem_cons_self (of_decide_eq_true same)
    have assigned : Json.assign before name value.value = before ++ [(name, value.value)] := by
      rw [Json.assign, fresh]
      rfl
    have rest := ih (before ++ [(name, value.value)]) (by simpa using distinct)
    simp only [List.map_cons, Doc.assignAll, jsString_chars, String.ofList_toList, assigned, rest,
      List.append_assoc, List.cons_append, List.nil_append]

/-! ### Strings in texts -/

namespace JsonText

theorem readString_shorter {text rest : Text} {value : List Glyph} (read : readString text = some (value, rest)) :
    value.length < text.length := by
  fun_induction readString text generalizing value rest with
  | case1 => cases read
  | case2 =>
    cases read
    exact Nat.zero_lt_succ _
  | case3 a b c d text ih =>
    simp only [Option.bind_eq_bind, Option.bind_eq_some_iff] at read
    obtain ⟨high, -, low, -, ⟨tail, after⟩, found, same⟩ := read
    cases same
    have := ih found
    simp only [List.length_cons]
    omega
  | case4 c text other ih =>
    simp only [Option.bind_eq_bind, Option.bind_eq_some_iff] at read
    obtain ⟨plain, -, ⟨tail, after⟩, found, same⟩ := read
    cases same
    have := ih found
    simp only [List.length_cons]
    omega
  | case5 => cases read
  | case6 c text _ _ _ _ ih =>
    obtain ⟨⟨tail, after⟩, found, same⟩ := Option.map_eq_some_iff.mp read
    cases same
    exact Nat.succ_lt_succ (ih found)

theorem pairUp_length (value : List Glyph) : (pairUp value).length ≤ value.length := by
  fun_induction pairUp value with
  | case1 high low rest pair ih =>
    simp only [List.length_cons]
    omega
  | case2 high low rest pair ih => exact Nat.succ_le_succ ih
  | case3 glyph rest other ih => exact Nat.succ_le_succ ih
  | case4 => exact Nat.le_refl _

theorem parse_str_shorter {text : Text} {value : List Glyph} (parsed : parse text = some (.str value)) :
    value.length < text.length := by
  have start : (skipSpace text).length ≤ text.length := (List.dropWhile_suffix _).length_le
  unfold parse at parsed
  cases read : readValue (2 * text.length + 1) text with
  | none =>
    rw [read] at parsed
    cases parsed
  | some result =>
    obtain ⟨doc, after⟩ := result
    rw [read] at parsed
    simp only at parsed
    split_ifs at parsed
    cases parsed
    unfold readValue at read
    split at read
    any_goals (cases read)
    · rename_i rest opened
      obtain ⟨⟨body, after⟩, found, same⟩ := Option.map_eq_some_iff.mp read
      cases same
      have shorter := readString_shorter found
      have paired := pairUp_length body
      rw [opened, List.length_cons] at start
      omega
    · split at read
      · cases read
      · obtain ⟨_, -, same⟩ := Option.map_eq_some_iff.mp read
        cases same
    · split at read
      · cases read
      · obtain ⟨_, -, same⟩ := Option.map_eq_some_iff.mp read
        cases same
    · obtain ⟨_, -, same⟩ := Option.map_eq_some_iff.mp read
      cases same

end JsonText

theorem Doc.value_str {doc : Doc} {text : String} (same : doc.value = .str text) :
    ∃ value, doc = .str value ∧ text = jsString value := by
  cases doc with
  | str value =>
    cases same
    exact ⟨value, rfl, rfl⟩
  | num literal =>
    rw [Doc.value] at same
    cases rounded : JsonText.nearestDouble (JsonText.literalValue literal) with
    | none =>
      rw [rounded] at same
      cases same
    | some value =>
      rw [rounded] at same
      cases same
  | null | bool | arr | obj => cases same

/-- A string that a text parses to is shorter than the text. -/
theorem JsonText.parse_shorter {text : Text} {doc : Doc} {inner : String} (parsed : parse text = some doc)
    (same : doc.value = .str inner) : inner.length < text.length := by
  obtain ⟨value, rfl, rfl⟩ := Doc.value_str same
  rw [jsString, String.length_ofList, List.length_map]
  exact parse_str_shorter parsed

/-- `JSON.parse` of a text that comes as bytes. -/
def jsonParse (raw : Bytes) : Option Json := (JsonText.parse (Utf8.decode raw)).map Doc.value

/-! ### Go -/

def Glyph.runes : Glyph → Text
  | .char c => [c]
  | .surrogate _ => [Utf8.replacement]
  | .malformed bytes => List.replicate bytes Utf8.replacement

def goText (value : List Glyph) : Text := value.flatMap Glyph.runes

@[simp] theorem goText_chars (text : Text) : goText (text.map .char) = text := by
  induction text with
  | nil => rfl
  | cons c rest ih => exact congrArg (c :: ·) ih

def goString (value : List Glyph) : Bytes := Utf8.encode (goText value)

/-- A string as the encoder sees it. -/
def goGlyphs (bytes : Bytes) : List Glyph :=
  (Utf8.runes bytes).map fun rune => rune.elim (.malformed 1) .char

/-- The value at a key of a map that the members were decoded into. -/
def Doc.last (members : List (List Glyph × Doc)) (name : Text) : Option Doc :=
  (lastWith (fun member => goText member.1) name members).map (·.2)

/-- `strconv.ParseInt(text, 10, 64)` -/
def parseInt64 (text : Text) : Option Int :=
  let digits := if text.head? = some '-' ∨ text.head? = some '+' then text.tail else text
  let value := JsonText.intValue text
  if digits ≠ [] ∧ digits.all Char.isDigit ∧ -2 ^ 63 ≤ value ∧ value < 2 ^ 63 then some value else none

private theorem digit_value {d : Nat} (small : d < 10) : (Char.ofNat (d + 48)).toNat - 48 = d := by
  interval_cases d <;> rfl

private theorem foldr_digits {digits : List Nat} (small : ∀ d ∈ digits, d < 10) :
    (digits.map fun d => Char.ofNat (d + 48)).foldr (fun c n => n * 10 + (c.toNat - 48)) 0 =
      Nat.ofDigits 10 digits := by
  induction digits with
  | nil => rfl
  | cons d rest ih =>
    obtain ⟨here, later⟩ := List.forall_mem_cons.mp small
    rw [List.map_cons, List.foldr_cons, ih later, digit_value here, Nat.ofDigits_cons]
    omega

theorem JsonText.natValue_decimal (n : Nat) : JsonText.natValue (JsonText.decimal n) = n := by
  rw [decimal]
  split
  · rename_i zero
    rw [zero]
    rfl
  · rw [natValue, List.foldl_reverse, foldr_digits fun d mem => Nat.digits_lt_base (by decide) mem,
      Nat.ofDigits_digits]

/-- A number that fits is read back. -/
theorem parseInt64_decimal {n : Nat} (fits : n < 2 ^ 63) : parseInt64 (JsonText.decimal n) = some (n : Int) := by
  obtain ⟨filled, digits⟩ := JsonText.decimal_digits n
  have value := JsonText.natValue_decimal n
  generalize JsonText.decimal n = text at filled digits value
  cases text with
  | nil => exact absurd rfl filled
  | cons c rest =>
    have digit := digits c (List.mem_cons_self ..)
    have minus : c ≠ '-' := fun same => by rw [same] at digit; cases digit
    have plus : c ≠ '+' := fun same => by rw [same] at digit; cases digit
    have unsigned : ¬ ((c :: rest).head? = some '-' ∨ (c :: rest).head? = some '+') := by
      simp [minus, plus]
    have whole : JsonText.intValue (c :: rest) = n := by
      rw [JsonText.intValue, value]
      · exact fun _ same => minus (List.cons.inj same).1
      · exact fun _ same => plus (List.cons.inj same).1
    rw [parseInt64]
    simp only [if_neg unsigned, whole]
    refine if_pos ⟨filled, List.all_eq_true.mpr digits, ?_, ?_⟩
    · omega
    · exact_mod_cast fits

/-- The literal that a document decodes into a `json.Number` as. -/
def Doc.number : Doc → Option Text
  | .num literal => some literal
  | .str value =>
    if JsonText.readNumber (goText value) = some (goText value, []) then some (goText value) else none
  | _ => none

/-- A decoder that reads one value, and what follows it. -/
def goDecode (raw : Bytes) : Option (Doc × Text) :=
  let text := Utf8.runeText raw
  JsonText.readValue (2 * text.length + 1) text

/-- Whether the decoder has another value to read. -/
def goMore (rest : Text) : Bool :=
  (JsonText.skipSpace rest).head?.any fun c => decide (c ≠ ']' ∧ c ≠ '}')

end Dropway.Lib

/-! Decoding the members of a JSON object into the fields of a Go struct. A member whose
value has another kind than its field fails the decoding. -/

namespace Dropway.Lib

/-- The least of the characters that differ from `c` in case only, as far as
ASCII is concerned. -/
def foldRune (c : Char) : Char :=
  if c.toNat = 0x17F then 's' else if c.toNat = 0x212A then 'k' else c.toLower

/-- A member of an object is decoded into the field of its name, in any case. -/
def names (field : String) (member : List Glyph × Doc) : Bool :=
  decide ((goText member.1).map foldRune = field.toList)

/-- The members of a field in turn, each decoded over what is there. -/
def decodeOver {α : Type} (field : String) (read : α → Doc → Option α) (start : α)
    (members : List (List Glyph × Doc)) : Option α :=
  (members.filter (names field)).foldlM (fun value member => read value member.2) start

/-- A string; `null` leaves it as it is. -/
def textOver (value : Text) : Doc → Option Text
  | .null => some value
  | .str new => some (goText new)
  | _ => none

/-- A raw message takes any value. -/
def rawOver (_ : Option Doc) (doc : Doc) : Option (Option Doc) := some (some doc)

end Dropway.Lib
