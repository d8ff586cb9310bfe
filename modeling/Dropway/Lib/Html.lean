import Dropway.Lib.LowerCase

/-! HTML tokens and the trees they nest into. The tokenizer reads the part of the language
that has an answer here; it gives up on comments, on names and references it does not
know, and on what is no tag after all. Reading is compositional: what pieces of a page are
read as says what the page is read as. -/

namespace Dropway.Lib.Html
open Lib.Units

def lit (text : String) : Units := ofText text.toList

abbrev Attributes := List (Units × Units)

inductive Token where
  | doctype
  | start (name : Units) (attributes : Attributes)
  | close (name : Units)
  | char (unit : UInt16)
  deriving DecidableEq

/-- How the text of the innermost element is read. -/
inductive Mode where
  | data
  | rcdata (name : Units)
  | rawtext (name : Units)
  deriving DecidableEq

inductive State where
  | content (mode : Mode)
  | reference (mode : Mode) (name : Units)
  | less (mode : Mode)
  | close (mode : Mode) (name : Units)
  | declaration (text : Units)
  | name (name : Units)
  | attributes (name : Units) (attributes : Attributes)
  | key (name : Units) (attributes : Attributes) (key : Units)
  | equals (name : Units) (attributes : Attributes) (key : Units)
  | value (name : Units) (attributes : Attributes) (key value : Units)
  | quoted (name : Units) (attributes : Attributes)
  deriving DecidableEq

def isLower (unit : UInt16) : Bool := 0x61 ≤ unit.toNat && unit.toNat ≤ 0x7A

def isDigit (unit : UInt16) : Bool := 0x30 ≤ unit.toNat && unit.toNat ≤ 0x39

/-- The characters of references, by their names. -/
def references : List (Units × UInt16) :=
  [(lit "amp", unit '&'), (lit "lt", unit '<'), (lit "gt", unit '>'), (lit "quot", unit '"'), (lit "#39", unit '\'')]

/-- Elements whose text has rules that are left out. -/
def special : List Units :=
  [lit "script", lit "textarea", lit "xmp", lit "iframe", lit "noembed", lit "noframes", lit "noscript", lit "plaintext"]

/-- What follows the start tag of an element. -/
def modeOf (name : Units) : Option Mode :=
  if name ∈ special then none
  else if name = lit "title" then some (.rcdata name)
  else if name = lit "style" then some (.rawtext name)
  else some .data

def started (name : Units) (attributes : Attributes) : Option (List Token × State) :=
  (modeOf name).map fun mode => ([.start name attributes], .content mode)

/-- References count everywhere but in raw text. -/
def Mode.decodes : Mode → Bool
  | .data => true
  | .rcdata _ => true
  | .rawtext _ => false

/-- The end tag of the element that is being read. -/
def Mode.closes (name : Units) : Mode → Bool
  | .data => true
  | .rcdata element => name = element
  | .rawtext element => name = element

def step : State → UInt16 → Option (List Token × State)
  | .content mode, c =>
    if c = unit '<' then some ([], .less mode)
    else if c = unit '&' ∧ mode.decodes then some ([], .reference mode [])
    else some ([.char c], .content mode)
  | .reference mode name, c =>
    if c = unit ';' then (references.lookup name).map fun known => ([.char known], .content mode)
    else some ([], .reference mode (name ++ [c]))
  | .less mode, c =>
    if c = unit '/' then some ([], .close mode [])
    else if mode = .data ∧ c = unit '!' then some ([], .declaration [])
    else if mode = .data ∧ isLower c then some ([], .name [c])
    else none
  | .close mode name, c =>
    if isLower c ∨ isDigit c ∧ name ≠ [] then some ([], .close mode (name ++ [c]))
    else if c = unit '>' ∧ name ≠ [] ∧ mode.closes name then some ([.close name], .content .data)
    else none
  | .declaration text, c =>
    if c ≠ unit '>' then some ([], .declaration (text ++ [c]))
    else if text = lit "doctype html" then some ([.doctype], .content .data)
    else none
  | .name name, c =>
    if isLower c ∨ isDigit c then some ([], .name (name ++ [c]))
    else if c = unit ' ' then some ([], .attributes name [])
    else if c = unit '>' then started name []
    else none
  | .attributes name attributes, c =>
    if isLower c then some ([], .key name attributes [c]) else none
  | .key name attributes key, c =>
    if isLower c ∨ c = unit '-' then some ([], .key name attributes (key ++ [c]))
    else if c = unit '=' ∧ key ∉ attributes.map Prod.fst then some ([], .equals name attributes key)
    else none
  | .equals name attributes key, c =>
    if c = unit '"' then some ([], .value name attributes key []) else none
  | .value name attributes key value, c =>
    if c = unit '"' then some ([], .quoted name (attributes ++ [(key, value)]))
    else if c = unit '&' then none
    else some ([], .value name attributes key (value ++ [c]))
  | .quoted name attributes, c =>
    if c = unit ' ' then some ([], .attributes name attributes)
    else if c = unit '>' then started name attributes
    else none

def run : State → Units → Option (List Token × State)
  | state, [] => some ([], state)
  | state, c :: rest =>
    (step state c).bind fun first => (run first.2 rest).map fun later => (first.1 ++ later.1, later.2)

/-- A whole page. -/
def tokenize (text : Units) : Option (List Token) :=
  (run (.content .data) text).bind fun read => if read.2 = .content .data then some read.1 else none

/-! ### Trees -/

/-- Siblings, each with what is inside it. -/
inductive Forest where
  | nil
  | doctype (rest : Forest)
  | char (unit : UInt16) (rest : Forest)
  | void (name : Units) (attributes : Attributes) (rest : Forest)
  | element (name : Units) (attributes : Attributes) (inside rest : Forest)
  deriving DecidableEq

namespace Forest

def append : Forest → Forest → Forest
  | nil, more => more
  | doctype rest, more => doctype (append rest more)
  | char c rest, more => char c (append rest more)
  | void name attributes rest, more => void name attributes (append rest more)
  | element name attributes inside rest, more => element name attributes inside (append rest more)

instance : Append Forest := ⟨append⟩

def tokens : Forest → List Token
  | nil => []
  | doctype rest => .doctype :: rest.tokens
  | char c rest => .char c :: rest.tokens
  | void name attributes rest => .start name attributes :: rest.tokens
  | element name attributes inside rest => .start name attributes :: (inside.tokens ++ .close name :: rest.tokens)

def text : Units → Forest
  | [] => nil
  | c :: rest => char c (text rest)

/-- One element. -/
def tag (name : String) (attributes : List (String × String)) (inside : Forest) : Forest :=
  element (lit name) (attributes.map fun pair => (lit pair.1, lit pair.2)) inside nil

end Forest

def voids : List Units :=
  [lit "area", lit "base", lit "br", lit "col", lit "embed", lit "hr", lit "img", lit "input", lit "link", lit "meta",
   lit "source", lit "track", lit "wbr"]

/-- Elements that are open, the innermost first, each with what is before it. -/
abbrev Open := List (Units × Attributes × Forest)

/-- End tags have to fit. -/
def build : List Token → Open → Forest → Option Forest
  | [], stack, done => if stack = [] then some done else none
  | .doctype :: rest, stack, done => build rest stack (done ++ .doctype .nil)
  | .char c :: rest, stack, done => build rest stack (done ++ .char c .nil)
  | .start name attributes :: rest, stack, done =>
    if name ∈ voids then build rest stack (done ++ .void name attributes .nil)
    else build rest ((name, attributes, done) :: stack) .nil
  | .close name :: rest, (last, attributes, before) :: stack, done =>
    if name = last then build rest stack (before ++ .element last attributes done .nil) else none
  | .close _ :: _, [], _ => none

/-- The tree of a page. -/
def parse (text : Units) : Option Forest := (tokenize text).bind fun tokens => build tokens [] .nil

/-! ### Reading piece by piece -/

def Scans (state : State) (text : Units) (tokens : List Token) (next : State) : Prop :=
  run state text = some (tokens, next)

instance (state : State) (text : Units) (tokens : List Token) (next : State) :
    Decidable (Scans state text tokens next) := inferInstanceAs (Decidable (_ = _))

theorem Scans.nil (state : State) : Scans state [] [] state := rfl

theorem Scans.cons {state middle next : State} {c : UInt16} {rest : Units} {first later : List Token}
    (here : step state c = some (first, middle)) (then_ : Scans middle rest later next) :
    Scans state (c :: rest) (first ++ later) next := by
  unfold Scans at *
  rw [run, here, Option.bind_some, then_, Option.map_some]

theorem Scans.append {state middle next : State} {front back : Units} {first second : List Token}
    (before : Scans state front first middle) (behind : Scans middle back second next) :
    Scans state (front ++ back) (first ++ second) next := by
  induction front generalizing state first with
  | nil =>
    cases before
    exact behind
  | cons c front ih =>
    unfold Scans at before
    rw [run] at before
    obtain ⟨⟨tokens, state'⟩, here, later⟩ := Option.bind_eq_some_iff.mp before
    obtain ⟨⟨rest, last⟩, ran, same⟩ := Option.map_eq_some_iff.mp later
    obtain ⟨rfl, rfl⟩ := Prod.mk.inj same
    rw [List.cons_append, List.append_assoc]
    exact Scans.cons here (ih ran)

/-- Text as it is written with references. -/
def escapeUnit (c : UInt16) : Units :=
  if c = unit '&' then lit "&amp;"
  else if c = unit '<' then lit "&lt;"
  else if c = unit '>' then lit "&gt;"
  else if c = unit '"' then lit "&quot;"
  else if c = unit '\'' then lit "&#39;"
  else [c]

def escape (text : Units) : Units := text.flatMap escapeUnit

theorem step_char {mode : Mode} {c : UInt16} (tag : c ≠ unit '<') (plain : ¬ (c = unit '&' ∧ mode.decodes = true)) :
    step (.content mode) c = some ([.char c], .content mode) := by
  rw [step, if_neg tag, if_neg plain]

theorem reads_reference {mode : Mode} (decodes : mode.decodes = true) (name : Units) {c : UInt16}
    (known : references.lookup name = some c) (letters : unit ';' ∉ name) :
    Scans (.content mode) (unit '&' :: (name ++ [unit ';'])) [.char c] (.content mode) := by
  have spelled (done rest : Units) (letters : unit ';' ∉ rest) :
      Scans (.reference mode done) rest [] (.reference mode (done ++ rest)) := by
    induction rest generalizing done with
    | nil =>
      rw [List.append_nil]
      exact Scans.nil _
    | cons letter rest ih =>
      have first : letter ≠ unit ';' := fun same => letters (same ▸ List.mem_cons_self)
      have tail := ih (done ++ [letter]) fun mem => letters (List.mem_cons_of_mem _ mem)
      rw [List.append_assoc, List.singleton_append] at tail
      have here : step (.reference mode done) letter = some ([], .reference mode (done ++ [letter])) := if_neg first
      exact Scans.cons here tail
  have last : step (.reference mode name) (unit ';') = some ([.char c], .content mode) := by
    rw [step, if_pos rfl, known, Option.map_some]
  have whole := (spelled [] name letters).append (Scans.cons last (Scans.nil _))
  have first : step (.content mode) (unit '&') = some ([], .reference mode []) := by
    rw [step, if_neg (by decide), if_pos ⟨rfl, decodes⟩]
  exact Scans.cons first whole

theorem reads_escapeUnit {mode : Mode} (decodes : mode.decodes = true) (c : UInt16) :
    Scans (.content mode) (escapeUnit c) [.char c] (.content mode) := by
  unfold escapeUnit
  by_cases amp : c = unit '&'
  · rw [if_pos amp, amp]
    exact reads_reference decodes (lit "amp") (by decide) (by decide)
  rw [if_neg amp]
  by_cases less : c = unit '<'
  · rw [if_pos less, less]
    exact reads_reference decodes (lit "lt") (by decide) (by decide)
  rw [if_neg less]
  by_cases greater : c = unit '>'
  · rw [if_pos greater, greater]
    exact reads_reference decodes (lit "gt") (by decide) (by decide)
  rw [if_neg greater]
  by_cases quote : c = unit '"'
  · rw [if_pos quote, quote]
    exact reads_reference decodes (lit "quot") (by decide) (by decide)
  rw [if_neg quote]
  by_cases apostrophe : c = unit '\''
  · rw [if_pos apostrophe, apostrophe]
    exact reads_reference decodes (lit "#39") (by decide) (by decide)
  rw [if_neg apostrophe]
  exact Scans.cons (step_char less fun both => amp both.1) (Scans.nil _)

theorem reads_escape {mode : Mode} (decodes : mode.decodes = true) (text : Units) :
    Scans (.content mode) (escape text) (text.map .char) (.content mode) := by
  unfold escape
  induction text with
  | nil => exact Scans.nil _
  | cons c text ih =>
    rw [List.flatMap_cons]
    exact (reads_escapeUnit decodes c).append ih

theorem reads_plain {mode : Mode} {text : Units}
    (plain : ∀ c ∈ text, c ≠ unit '<' ∧ ¬ (c = unit '&' ∧ mode.decodes = true)) :
    Scans (.content mode) text (text.map .char) (.content mode) := by
  induction text with
  | nil => exact Scans.nil _
  | cons c text ih =>
    obtain ⟨here, later⟩ := List.forall_mem_cons.mp plain
    exact Scans.cons (step_char here.1 here.2) (ih later)

/-- A value goes on to its quote. -/
theorem reads_value {name : Units} {attributes : Attributes} {key value text : Units}
    (plain : ∀ c ∈ text, c ≠ unit '"' ∧ c ≠ unit '&') :
    Scans (.value name attributes key value) text [] (.value name attributes key (value ++ text)) := by
  induction text generalizing value with
  | nil =>
    rw [List.append_nil]
    exact Scans.nil _
  | cons c text ih =>
    obtain ⟨here, later⟩ := List.forall_mem_cons.mp plain
    have tail : Scans (.value name attributes key (value ++ [c])) text []
        (.value name attributes key (value ++ [c] ++ text)) := ih later
    rw [List.append_assoc, List.singleton_append] at tail
    have first : step (.value name attributes key value) c = some ([], .value name attributes key (value ++ [c])) := by
      rw [step, if_neg here.1, if_neg here.2]
    exact Scans.cons first tail

/-! ### Trees piece by piece -/

namespace Forest

@[simp] theorem nil_append (more : Forest) : nil ++ more = more := rfl

@[simp] theorem doctype_append (rest more : Forest) : doctype rest ++ more = doctype (rest ++ more) := rfl

@[simp] theorem char_append (c : UInt16) (rest more : Forest) : char c rest ++ more = char c (rest ++ more) := rfl

@[simp] theorem void_append (name : Units) (attributes : Attributes) (rest more : Forest) :
    void name attributes rest ++ more = void name attributes (rest ++ more) := rfl

@[simp] theorem element_append (name : Units) (attributes : Attributes) (inside rest more : Forest) :
    element name attributes inside rest ++ more = element name attributes inside (rest ++ more) := rfl

@[simp] theorem append_nil (forest : Forest) : forest ++ nil = forest := by
  induction forest with
  | nil => rfl
  | doctype rest ih => rw [doctype_append, ih]
  | char c rest ih => rw [char_append, ih]
  | void name attributes rest ih => rw [void_append, ih]
  | element name attributes inside rest _ ih => rw [element_append, ih]

theorem append_assoc (first second third : Forest) : first ++ second ++ third = first ++ (second ++ third) := by
  induction first with
  | nil => rfl
  | doctype rest ih => rw [doctype_append, doctype_append, ih, doctype_append]
  | char c rest ih => rw [char_append, char_append, ih, char_append]
  | void name attributes rest ih => rw [void_append, void_append, ih, void_append]
  | element name attributes inside rest _ ih => rw [element_append, element_append, ih, element_append]

theorem tokens_append (first second : Forest) : (first ++ second).tokens = first.tokens ++ second.tokens := by
  induction first with
  | nil => rfl
  | doctype rest ih => rw [doctype_append, tokens, tokens, ih, List.cons_append]
  | char c rest ih => rw [char_append, tokens, tokens, ih, List.cons_append]
  | void name attributes rest ih => rw [void_append, tokens, tokens, ih, List.cons_append]
  | element name attributes inside rest _ ih =>
    rw [element_append, tokens, tokens, ih, List.cons_append, List.append_assoc, List.cons_append]

@[simp] theorem tokens_text (units : Units) : (text units).tokens = units.map .char := by
  induction units with
  | nil => rfl
  | cons c units ih => rw [text, tokens, ih, List.map_cons]

theorem text_append (front back : Units) : text (front ++ back) = text front ++ text back := by
  induction front with
  | nil => rfl
  | cons c front ih => rw [List.cons_append, text, text, char_append, ih]

/-- Only elements and text, each element one that its parent may hold. -/
def Within (allowed : Units → Units → Attributes → Prop) (parent : Units) : Forest → Prop
  | nil => True
  | doctype _ => False
  | char _ rest => rest.Within allowed parent
  | void _ _ _ => False
  | element name attributes inside rest =>
    allowed parent name attributes ∧ inside.Within allowed name ∧ rest.Within allowed parent

def hasId (attributes : Attributes) : Bool := (attributes.lookup (lit "id")).isSome

/-- The elements with an `id` that are in no other one, in their order. -/
def identified : Forest → List Forest
  | nil => []
  | doctype rest => rest.identified
  | char _ rest => rest.identified
  | void name attributes rest => (if hasId attributes then [void name attributes nil] else []) ++ rest.identified
  | element name attributes inside rest =>
    (if hasId attributes then [element name attributes inside nil] else inside.identified) ++ rest.identified

theorem within_text (allowed : Units → Units → Attributes → Prop) (parent units : Units) :
    (text units).Within allowed parent := by
  induction units with
  | nil => exact trivial
  | cons c units ih => exact ih

theorem within_append {allowed : Units → Units → Attributes → Prop} {parent : Units} {first second : Forest}
    (before : first.Within allowed parent) (behind : second.Within allowed parent) :
    (first ++ second).Within allowed parent := by
  induction first with
  | nil => exact behind
  | doctype rest ih => exact before.elim
  | char c rest ih => exact ih before
  | void name attributes rest ih => exact before.elim
  | element name attributes inside rest _ ih => exact ⟨before.1, before.2.1, ih before.2.2⟩

theorem identified_append (first second : Forest) :
    (first ++ second).identified = first.identified ++ second.identified := by
  induction first with
  | nil => rfl
  | doctype rest ih => exact ih
  | char c rest ih => exact ih
  | void name attributes rest ih => rw [void_append, identified, identified, ih, List.append_assoc]
  | element name attributes inside rest _ ih => rw [element_append, identified, identified, ih, List.append_assoc]

@[simp] theorem identified_text (units : Units) : (text units).identified = [] := by
  induction units with
  | nil => rfl
  | cons c units ih => exact ih

theorem identified_tag {name : String} {attributes : List (String × String)} {inside : Forest}
    (plain : hasId (attributes.map fun pair => (lit pair.1, lit pair.2)) = false) :
    (tag name attributes inside).identified = inside.identified := by
  unfold tag
  rw [identified, plain, if_neg Bool.false_ne_true, identified, List.append_nil]

/-- Void elements hold nothing, and others are not void. -/
def Sound : Forest → Prop
  | nil => True
  | doctype rest => rest.Sound
  | char _ rest => rest.Sound
  | void name _ rest => name ∈ voids ∧ rest.Sound
  | element name _ inside rest => name ∉ voids ∧ inside.Sound ∧ rest.Sound

theorem sound_within {allowed : Units → Units → Attributes → Prop} {parent : Units} {forest : Forest}
    (solid : ∀ parent name attributes, allowed parent name attributes → name ∉ voids)
    (within : forest.Within allowed parent) : forest.Sound := by
  induction forest generalizing parent with
  | nil => exact trivial
  | doctype rest ih => exact within.elim
  | char c rest ih => exact ih within
  | void name attributes rest ih => exact within.elim
  | element name attributes inside rest insideIh ih =>
    exact ⟨solid _ _ _ within.1, insideIh within.2.1, ih within.2.2⟩

theorem sound_append {first second : Forest} (before : first.Sound) (behind : second.Sound) : (first ++ second).Sound := by
  induction first with
  | nil => exact behind
  | doctype rest ih => exact ih before
  | char c rest ih => exact ih before
  | void name attributes rest ih => exact ⟨before.1, ih before.2⟩
  | element name attributes inside rest _ ih => exact ⟨before.1, before.2.1, ih before.2.2⟩

theorem sound_text (units : Units) : (text units).Sound := by
  induction units with
  | nil => exact trivial
  | cons c units ih => exact ih

theorem build_tokens {forest : Forest} (sound : forest.Sound) (more : List Token) (stack : Open) (done : Forest) :
    build (forest.tokens ++ more) stack done = build more stack (done ++ forest) := by
  induction forest generalizing more stack done with
  | nil => rw [append_nil]; rfl
  | doctype rest ih =>
    rw [tokens, List.cons_append, build, ih sound, append_assoc]
    rfl
  | char c rest ih =>
    rw [tokens, List.cons_append, build, ih sound, append_assoc]
    rfl
  | void name attributes rest ih =>
    rw [tokens, List.cons_append, build, if_pos sound.1, ih sound.2, append_assoc]
    rfl
  | element name attributes inside rest insideIh ih =>
    rw [tokens, List.cons_append, List.append_assoc, build, if_neg sound.1, insideIh sound.2.1, List.cons_append, build,
      if_pos rfl, ih sound.2.2, append_assoc]
    rfl

end Forest

/-- Text that is read as a forest. -/
def Spells (text : Units) (forest : Forest) : Prop := Scans (.content .data) text forest.tokens (.content .data)

theorem Spells.nil : Spells [] .nil := Scans.nil _

theorem Spells.append {front back : Units} {first second : Forest} (before : Spells front first)
    (behind : Spells back second) : Spells (front ++ back) (first ++ second) := by
  unfold Spells
  rw [Forest.tokens_append]
  exact Scans.append before behind

theorem Spells.escape (text : Units) : Spells (escape text) (.text text) := by
  unfold Spells
  rw [Forest.tokens_text]
  exact reads_escape rfl text

theorem Spells.plain {text : Units} (plain : ∀ c ∈ text, c ≠ unit '<' ∧ c ≠ unit '&') : Spells text (.text text) := by
  unfold Spells
  rw [Forest.tokens_text]
  exact reads_plain fun c mem => ⟨(plain c mem).1, fun both => (plain c mem).2 both.1⟩

/-- An element, its tags read apart from what is inside. -/
theorem Spells.element {start inner close name : Units} {attributes : Attributes} {mode : Mode} {inside : Forest}
    (opens : Scans (.content .data) start [.start name attributes] (.content mode))
    (holds : Scans (.content mode) inner inside.tokens (.content mode))
    (closes : Scans (.content mode) close [.close name] (.content .data)) :
    Spells (start ++ (inner ++ close)) (.element name attributes inside .nil) :=
  opens.append (holds.append closes)

theorem parse_of_spells {text : Units} {forest : Forest} (sound : forest.Sound) (spells : Spells text forest) :
    parse text = some forest := by
  have built := Forest.build_tokens sound [] [] .nil
  rw [List.append_nil] at built
  unfold parse tokenize
  rw [spells, Option.bind_some, if_pos rfl, Option.bind_some, built, build, if_pos rfl]
  rfl

end Dropway.Lib.Html
