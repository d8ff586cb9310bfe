import Dropway.Edge.ChatPage

/-! The page of a conversation is read as a tree of the renderer's own elements, whatever
the transcript says: titles, messages, paths and tools are text in it. -/

namespace Dropway.Edge.ChatPage
open Lib Lib.Units Lib.Html

/-! ### Escaping -/

theorem replaceUnit_append (c : UInt16) (by_ : String) (front back : Units) :
    replaceUnit c by_ (front ++ back) = replaceUnit c by_ front ++ replaceUnit c by_ back := List.flatMap_append

theorem replaceUnit_other {c x : UInt16} (by_ : String) (other : x ≠ c) : replaceUnit c by_ [x] = [x] := by
  unfold replaceUnit
  rw [List.flatMap_singleton, if_neg other]

theorem esc_one (c : UInt16) : esc [c] = escapeUnit c := by
  unfold escapeUnit
  by_cases amp : c = unit '&'
  · rw [if_pos amp, amp]
    decide
  rw [if_neg amp]
  by_cases less : c = unit '<'
  · rw [if_pos less, less]
    decide
  rw [if_neg less]
  by_cases greater : c = unit '>'
  · rw [if_pos greater, greater]
    decide
  rw [if_neg greater]
  by_cases quote : c = unit '"'
  · rw [if_pos quote, quote]
    decide
  rw [if_neg quote]
  by_cases apostrophe : c = unit '\''
  · rw [if_pos apostrophe, apostrophe]
    decide
  rw [if_neg apostrophe, esc, replaceUnit_other _ amp, replaceUnit_other _ less, replaceUnit_other _ greater,
    replaceUnit_other _ quote, replaceUnit_other _ apostrophe]

theorem esc_eq (s : Units) : esc s = escape s := by
  unfold escape
  induction s with
  | nil => rfl
  | cons c s ih =>
    have split : esc (c :: s) = esc [c] ++ esc s := by
      rw [← List.singleton_append]
      unfold esc
      rw [replaceUnit_append, replaceUnit_append, replaceUnit_append, replaceUnit_append, replaceUnit_append]
    rw [split, esc_one, ih, List.flatMap_cons]

theorem spells_esc (s : Units) : Spells (esc s) (.text s) := by
  rw [esc_eq]
  exact Spells.escape s

/-! ### Literals -/

theorem lit_letters (text : String) (chars : Text) (same : text = String.ofList chars) : lit text = ofText chars := by
  unfold lit
  rw [same, String.toList_ofList]

theorem reads_lit {state next : State} {text : String} {tokens : List Token} (chars : Text)
    (same : text = String.ofList chars) (reads : Scans state (ofText chars) tokens next) :
    Scans state (lit text) tokens next := by
  rw [lit_letters text chars same]
  exact reads

/-- The letters of attributes. -/
inductive Letters : List (String × String) → List (Text × Text) → Prop
  | nil : Letters [] []
  | cons {key value : String} {first second : Text} {attributes : List (String × String)} {pairs : List (Text × Text)}
      (named : key = String.ofList first) (valued : value = String.ofList second) (later : Letters attributes pairs) :
      Letters ((key, value) :: attributes) ((first, second) :: pairs)

theorem Letters.written {attributes : List (String × String)} {pairs : List (Text × Text)}
    (letters : Letters attributes pairs) :
    attributes.map (fun pair => (lit pair.1, lit pair.2)) = pairs.map fun texts => (ofText texts.1, ofText texts.2) := by
  induction letters with
  | nil => rfl
  | cons named valued later ih =>
    rw [List.map_cons, List.map_cons, ih, lit_letters _ _ named, lit_letters _ _ valued]

/-- An element between the literals of its tags. -/
theorem spells_inside {mode : Mode} {before behind name : String} {attributes : List (String × String)} {inner : Units}
    {inside : Forest} {chars more letters : Text} {pairs : List (Text × Text)} (starts : before = String.ofList chars)
    (ends : behind = String.ofList more) (named : name = String.ofList letters)
    (listed : Letters attributes pairs)
    (tags : Scans (.content .data) (ofText chars)
        [.start (ofText letters) (pairs.map fun texts => (ofText texts.1, ofText texts.2))] (.content mode) ∧
      Scans (.content mode) (ofText more) [.close (ofText letters)] (.content .data))
    (holds : Scans (.content mode) inner inside.tokens (.content mode)) :
    Spells (within before inner behind) (.tag name attributes inside) := by
  unfold Forest.tag
  rw [listed.written, lit_letters _ _ named]
  exact Spells.element (reads_lit chars starts tags.1) holds (reads_lit more ends tags.2)

theorem spells_within {before behind name : String} {attributes : List (String × String)} {inner : Units}
    {inside : Forest} {chars more letters : Text} {pairs : List (Text × Text)} (starts : before = String.ofList chars)
    (ends : behind = String.ofList more) (named : name = String.ofList letters)
    (listed : Letters attributes pairs)
    (tags : Scans (.content .data) (ofText chars)
        [.start (ofText letters) (pairs.map fun texts => (ofText texts.1, ofText texts.2))] (.content .data) ∧
      Scans (.content .data) (ofText more) [.close (ofText letters)] (.content .data))
    (holds : Spells inner inside) : Spells (within before inner behind) (.tag name attributes inside) :=
  spells_inside starts ends named listed tags holds

/-! ### Content -/

/-- The text and the code of one paragraph. -/
def inlineTree : Option Units → Units → Forest
  | none, [] => .nil
  | some code, [] => .text (unit '`' :: code)
  | none, c :: rest => if c = unit '`' then inlineTree (some []) rest else .char c (inlineTree none rest)
  | some code, c :: rest =>
    if c = unit '`' then
      if code = [] then .char (unit '`') (inlineTree (some []) rest)
      else .tag "code" [] (.text code) ++ inlineTree none rest
    else if c = unit '\n' then .text (unit '`' :: code) ++ .char c (inlineTree none rest)
    else inlineTree (some (code ++ [c])) rest

def flushTree (lines : List Units) : Forest :=
  let joined := join (unit '\n') lines
  if trim joined = [] then .nil else .tag "p" [("class", "txt")] (inlineTree none joined)

def codeTree (lines : List Units) : Forest := .tag "pre" [] (.tag "code" [] (.text (join (unit '\n') lines)))

def linesTree : Block → List Units → Forest
  | .text lines, [] => flushTree lines
  | .code lines, [] => codeTree lines
  | .text lines, line :: rest =>
    if isFence line then flushTree lines ++ linesTree (.code []) rest else linesTree (.text (lines ++ [line])) rest
  | .code lines, line :: rest =>
    if isFence line then codeTree lines ++ linesTree (.text []) rest else linesTree (.code (lines ++ [line])) rest

def contentTree (src : Units) : Forest := linesTree (.text []) ((newlines false src).splitOn (unit '\n'))

/-- Neither backticks nor line feeds come from other units. -/
theorem escapeUnit_plain {c : UInt16} (tick : c ≠ unit '`') (feed : c ≠ unit '\n') :
    ∀ x ∈ escapeUnit c, x ≠ unit '`' ∧ x ≠ unit '\n' := by
  have apart : unit '`' ∉ escapeUnit c ∧ unit '\n' ∉ escapeUnit c := by
    unfold escapeUnit
    split
    · decide
    split
    · decide
    split
    · decide
    split
    · decide
    split
    · decide
    exact ⟨fun mem => tick (List.mem_singleton.mp mem).symm, fun mem => feed (List.mem_singleton.mp mem).symm⟩
  intro x mem
  exact ⟨fun same => apart.1 (same ▸ mem), fun same => apart.2 (same ▸ mem)⟩

theorem escape_cons (c : UInt16) (s : Units) : escape (c :: s) = escapeUnit c ++ escape s := List.flatMap_cons

theorem escape_append (front back : Units) : escape (front ++ back) = escape front ++ escape back := List.flatMap_append

theorem escape_tick (s : Units) : escape (unit '`' :: s) = unit '`' :: escape s := escape_cons _ s

theorem escape_feed (s : Units) : escape (unit '\n' :: s) = unit '\n' :: escape s := escape_cons _ s

theorem escape_eq_nil {s : Units} : escape s = [] ↔ s = [] := by
  cases s with
  | nil => exact iff_of_true rfl rfl
  | cons c s =>
    refine iff_of_false ?_ (List.cons_ne_nil _ _)
    rw [escape_cons]
    apply List.append_ne_nil_of_left_ne_nil
    unfold escapeUnit
    split
    · decide
    split
    · decide
    split
    · decide
    split
    · decide
    split
    · decide
    exact List.cons_ne_nil _ _

theorem inlineCode_none {front : Units} (plain : ∀ x ∈ front, x ≠ unit '`' ∧ x ≠ unit '\n') (rest : Units) :
    inlineCode none (front ++ rest) = front ++ inlineCode none rest := by
  induction front with
  | nil => rfl
  | cons x front ih =>
    obtain ⟨here, later⟩ := List.forall_mem_cons.mp plain
    rw [List.cons_append, inlineCode, if_neg here.1, ih later, List.cons_append]

theorem inlineCode_some {front : Units} (plain : ∀ x ∈ front, x ≠ unit '`' ∧ x ≠ unit '\n') (code rest : Units) :
    inlineCode (some code) (front ++ rest) = inlineCode (some (code ++ front)) rest := by
  induction front generalizing code with
  | nil => rw [List.nil_append, List.append_nil]
  | cons x front ih =>
    obtain ⟨here, later⟩ := List.forall_mem_cons.mp plain
    rw [List.cons_append, inlineCode, if_neg here.1, if_neg here.2, ih later, List.append_assoc, List.singleton_append]

theorem spells_char (c : UInt16) : Spells (escapeUnit c) (.char c .nil) := reads_escapeUnit rfl c

theorem spells_code (code : Units) : Spells (within "<code>" (escape code) "</code>") (.tag "code" [] (.text code)) :=
  spells_within rfl rfl rfl .nil (by decide) (Spells.escape code)

/-- Escaping and finding the code commute. -/
theorem spells_inline (s : Units) :
    Spells (inlineCode none (escape s)) (inlineTree none s) ∧
      ∀ code, Spells (inlineCode (some (escape code)) (escape s)) (inlineTree (some code) s) := by
  induction s with
  | nil =>
    refine ⟨Spells.nil, fun code => ?_⟩
    have whole := Spells.escape (unit '`' :: code)
    rwa [escape_tick] at whole
  | cons c s ih =>
    obtain ⟨outside, pending⟩ := ih
    by_cases tick : c = unit '`'
    · subst tick
      rw [escape_tick]
      constructor
      · rw [inlineCode, if_pos rfl, inlineTree, if_pos rfl]
        exact pending []
      · intro code
        rw [inlineCode, if_pos rfl, inlineTree, if_pos rfl]
        by_cases empty : code = []
        · rw [if_pos empty, if_pos (escape_eq_nil.mpr empty)]
          exact (spells_char (unit '`')).append (pending [])
        · rw [if_neg empty, if_neg fun none => empty (escape_eq_nil.mp none)]
          exact (spells_code code).append outside
    · by_cases feed : c = unit '\n'
      · subst feed
        rw [escape_feed]
        have line : Spells (unit '\n' :: inlineCode none (escape s)) (.char (unit '\n') (inlineTree none s)) :=
          (spells_char (unit '\n')).append outside
        constructor
        · rw [inlineCode, if_neg tick, inlineTree, if_neg tick]
          exact line
        · intro code
          have opener := Spells.escape (unit '`' :: code)
          rw [escape_tick] at opener
          rw [inlineCode, if_neg tick, if_pos rfl, inlineTree, if_neg tick, if_pos rfl]
          exact opener.append line
      · rw [escape_cons]
        have plain := escapeUnit_plain tick feed
        constructor
        · rw [inlineCode_none plain, inlineTree, if_neg tick]
          exact (spells_char c).append outside
        · intro code
          have longer := pending (code ++ [c])
          have one : escape [c] = escapeUnit c := List.flatMap_singleton ..
          rw [escape_append, one] at longer
          rw [inlineCode_some plain, inlineTree, if_neg tick, if_neg feed]
          exact longer

theorem spells_flush (lines : List Units) : Spells (flushText lines).flatten (flushTree lines) := by
  unfold flushText flushTree
  by_cases blank : trim (join (unit '\n') lines) = []
  · rw [if_pos blank, if_pos blank]
    exact Spells.nil
  · rw [if_neg blank, if_neg blank, List.flatten_singleton, esc_eq]
    exact spells_within rfl rfl rfl (.cons rfl rfl .nil) (by decide) (spells_inline _).1

theorem spells_codeBlock (lines : List Units) : Spells (codeBlock lines) (codeTree lines) := by
  have code := spells_code (join (unit '\n') lines)
  rw [← esc_eq] at code
  exact spells_within rfl rfl rfl .nil (by decide) code

theorem spells_lines (block : Block) (lines : List Units) :
    Spells (renderLines block lines).flatten (linesTree block lines) := by
  induction lines generalizing block with
  | nil =>
    cases block with
    | text lines => exact spells_flush lines
    | code lines =>
      rw [renderLines, List.flatten_singleton]
      exact spells_codeBlock lines
  | cons line rest ih =>
    cases block with
    | text lines =>
      rw [renderLines, linesTree]
      by_cases fence : isFence line = true
      · rw [if_pos fence, if_pos fence, List.flatten_append]
        exact (spells_flush lines).append (ih _)
      · rw [if_neg fence, if_neg fence]
        exact ih _
    | code lines =>
      rw [renderLines, linesTree]
      by_cases fence : isFence line = true
      · rw [if_pos fence, if_pos fence, List.flatten_cons]
        exact (spells_codeBlock lines).append (ih _)
      · rw [if_neg fence, if_neg fence]
        exact ih _

theorem spells_content (src : Units) : Spells (renderChatContent src) (contentTree src) := spells_lines _ _

/-! ### Numbers -/

/-- What stands neither for a tag nor for a reference nor for the end of a value. -/
def Mild (c : UInt16) : Prop := c ≠ unit '<' ∧ c ≠ unit '&' ∧ c ≠ unit '"'

instance (c : UInt16) : Decidable (Mild c) := inferInstanceAs (Decidable (_ ∧ _))

theorem mild_of_all {text : Units} (all : text.all (fun c => decide (Mild c)) = true) : ∀ c ∈ text, Mild c :=
  fun c mem => of_decide_eq_true (List.all_eq_true.mp all c mem)

theorem digit_mild (d : Fin 10) : Mild (JsNumber.digit d) := by
  have all : ∀ d : Fin 10, Mild (JsNumber.digit d) := by decide
  exact all d

theorem decimal_mild (n : Nat) : ∀ c ∈ (JsonText.decimal n).map unit, Mild c := by
  intro c mem
  obtain ⟨letter, inside, rfl⟩ := List.mem_map.mp mem
  have digit := (JsonText.decimal_digits n).2 letter inside
  unfold Char.isDigit at digit
  simp only [Bool.and_eq_true, decide_eq_true_eq] at digit
  have least : 0x30 ≤ letter.toNat := digit.1
  have most : letter.toNat ≤ 0x39 := digit.2
  have value : (unit letter).toNat = letter.toNat := toNat_ofNat (by omega)
  refine ⟨?_, ?_, ?_⟩
  · intro same
    rw [same] at value
    change 0x3C = _ at value
    omega
  · intro same
    rw [same] at value
    change 0x26 = _ at value
    omega
  · intro same
    rw [same] at value
    change 0x22 = _ at value
    omega

theorem zeros_mild (n : Int) : ∀ c ∈ JsNumber.zeros n, Mild c := by
  intro c mem
  rw [List.eq_of_mem_replicate mem]
  decide

theorem text_mild (n : JsNumber) : ∀ c ∈ n.text, Mild c := by
  cases n with
  | zero => exact mild_of_all (by decide)
  | infinite negative =>
    cases negative with
    | false => exact mild_of_all (by decide)
    | true => exact mild_of_all (by decide)
  | finite negative first rest point =>
    have digits : ∀ c ∈ (first :: rest).map JsNumber.digit, Mild c := by
      intro c mem
      obtain ⟨d, -, rfl⟩ := List.mem_map.mp mem
      exact digit_mild d
    have later : ∀ c ∈ rest.map JsNumber.digit, Mild c := fun c mem => digits c (List.mem_cons_of_mem _ mem)
    have point_mild : Mild (unit '.') := by decide
    have sign : ∀ c ∈ (if negative = true then [unit '-'] else []), Mild c := by
      cases negative with
      | false => exact mild_of_all (by decide)
      | true => exact mild_of_all (by decide)
    unfold JsNumber.text
    refine List.forall_mem_append.mpr ⟨sign, ?_⟩
    split
    · exact List.forall_mem_append.mpr ⟨digits, zeros_mild _⟩
    split
    · refine List.forall_mem_append.mpr ⟨fun c mem => digits c (List.mem_of_mem_take mem), ?_⟩
      exact List.forall_mem_cons.mpr ⟨point_mild, fun c mem => digits c (List.mem_of_mem_drop mem)⟩
    split
    · refine List.forall_mem_cons.mpr ⟨by decide, List.forall_mem_cons.mpr ⟨point_mild, ?_⟩⟩
      exact List.forall_mem_append.mpr ⟨zeros_mild _, digits⟩
    · refine List.forall_mem_cons.mpr ⟨digit_mild first, List.forall_mem_append.mpr ⟨?_, ?_⟩⟩
      · split
        · exact List.forall_mem_nil _
        · exact List.forall_mem_cons.mpr ⟨point_mild, later⟩
      · refine List.forall_mem_cons.mpr ⟨by decide, List.forall_mem_cons.mpr ⟨?_, decimal_mild _⟩⟩
        split
        · decide
        · decide

theorem spells_mild {text : Units} (mild : ∀ c ∈ text, Mild c) : Spells text (.text text) :=
  Spells.plain fun c mem => ⟨(mild c mem).1, (mild c mem).2.1⟩

/-! ### The page -/

/-- A literal without markup is its own text. -/
theorem spells_words {text : String} (chars : Text) (same : text = String.ofList chars)
    (mild : (ofText chars).all (fun c => decide (Mild c)) = true) : Spells (lit text) (.text (lit text)) := by
  rw [lit_letters text chars same]
  exact spells_mild (mild_of_all mild)

def chipTree (text : Units) : Forest := .tag "span" [("class", "chip")] (.text text)

def labelText (tool : Units) : Units :=
  if tool = lit "claude_code" then lit "Claude Code"
  else if tool = lit "chatgpt" then lit "ChatGPT"
  else if tool = lit "cursor" then lit "Cursor"
  else if tool = lit "other" ∨ tool = [] then lit "AI session"
  else tool

/-- A message: its tag, then its parts around the content. -/
def messageNode (class_ : Units) (seq : JsNumber) (inside : Forest) : Forest :=
  .element (lit "div") [(lit "class", class_), (lit "id", lit "msg-" ++ seq.text)] inside .nil

def concat (forests : List Forest) : Forest := forests.foldr (· ++ ·) .nil

def actionTree (m : ChatMessage) : Forest :=
  let edit := m.action = some (lit "file_edit")
  let icon := if edit then lit "✎" else lit "⚙"
  let what := if edit then concat (m.paths.map chipTree)
    else match m.tool with
      | none => .nil
      | some tool => if tool = [] then .nil else chipTree tool
  messageNode (lit "action") m.seq
    (.tag "span" [("class", "icon"), ("aria-hidden", "true")] (.text icon) ++
      .tag "div" [("class", "act-body")] (what ++ contentTree m.content))

def bubbleTree (m : ChatMessage) : Forest :=
  let side := if m.role = lit "user" then lit "user" else lit "assistant"
  messageNode (lit "msg " ++ side) m.seq (.tag "div" [("class", "bubble")] (contentTree m.content))

def messageTree (m : ChatMessage) : Forest := if m.kind = lit "action" then actionTree m else bubbleTree m

def dividerTree : Forest :=
  .tag "div" [("class", "divider"), ("role", "separator")] (.tag "span" [] (.text (lit "↑ deployed as new version")))

def partTrees : Units → Bool → List ChatMessage → List Forest
  | _, _, [] => []
  | prevVersion, first, m :: rest =>
    let divider := if first = false ∧ m.versionId ≠ [] ∧ m.versionId ≠ prevVersion then [dividerTree] else []
    let version := if m.versionId ≠ [] then m.versionId else prevVersion
    divider ++ messageTree m :: partTrees version false rest

def joinTrees (separator : Forest) : List Forest → Forest
  | [] => .nil
  | [part] => part
  | part :: rest => part ++ (separator ++ joinTrees separator rest)

theorem spells_chip (text : Units) : Spells (chip text) (chipTree text) :=
  spells_within rfl rfl rfl (.cons rfl rfl .nil) (by decide) (spells_esc text)

theorem spells_label (tool : Units) : Spells (sourceToolLabel tool) (.text (labelText tool)) := by
  unfold sourceToolLabel labelText
  split
  · exact spells_words _ rfl (by decide)
  split
  · exact spells_words _ rfl (by decide)
  split
  · exact spells_words _ rfl (by decide)
  split
  · exact spells_words _ rfl (by decide)
  exact spells_esc tool

theorem words_mild {text : String} (chars : Text) (same : text = String.ofList chars)
    (mild : (ofText chars).all (fun c => decide (Mild c)) = true) : ∀ c ∈ lit text, Mild c := by
  rw [lit_letters text chars same]
  exact mild_of_all mild

theorem countLine_mild (shown : Nat) (total : Option JsNumber) : ∀ c ∈ countLine shown total, Mild c := by
  have all : ∀ c ∈ (if shown = 1 then lit "1 message" else number shown ++ lit " messages"), Mild c := by
    split
    · exact words_mild _ rfl (by decide)
    · exact List.forall_mem_append.mpr ⟨decimal_mild shown, words_mild _ rfl (by decide)⟩
  cases total with
  | none => exact all
  | some total =>
    unfold countLine
    dsimp only
    split
    · refine List.forall_mem_append.mpr ⟨words_mild _ rfl (by decide), ?_⟩
      refine List.forall_mem_append.mpr ⟨decimal_mild shown, ?_⟩
      exact List.forall_mem_append.mpr ⟨words_mild _ rfl (by decide), text_mild total⟩
    · exact all

theorem spells_message {class_ inner : Units} {inside : Forest} (mild : ∀ c ∈ class_, Mild c) (seq : JsNumber)
    (holds : Spells inner inside) : Spells (messageDiv class_ seq inner) (messageNode class_ seq inside) := by
  have opens : Scans (.content .data) (lit "<div class=\"") [] (.value (lit "div") [] (lit "class") []) :=
    reads_lit _ rfl (by decide)
  have named : Scans (.value (lit "div") [] (lit "class") []) class_ [] (.value (lit "div") [] (lit "class") class_) :=
    reads_value fun c mem => ⟨(mild c mem).2.2, (mild c mem).2.1⟩
  have next : Scans (.value (lit "div") [] (lit "class") class_) (lit "\" id=\"msg-") []
      (.value (lit "div") [(lit "class", class_)] (lit "id") (lit "msg-")) := reads_lit _ rfl rfl
  have numbered : Scans (.value (lit "div") [(lit "class", class_)] (lit "id") (lit "msg-")) seq.text []
      (.value (lit "div") [(lit "class", class_)] (lit "id") (lit "msg-" ++ seq.text)) :=
    reads_value fun c mem => ⟨(text_mild seq c mem).2.2, (text_mild seq c mem).2.1⟩
  have done : Scans (.value (lit "div") [(lit "class", class_)] (lit "id") (lit "msg-" ++ seq.text)) (lit "\">")
      [.start (lit "div") [(lit "class", class_), (lit "id", lit "msg-" ++ seq.text)]] (.content .data) :=
    reads_lit _ rfl rfl
  have closes : Scans (.content .data) (lit "</div>") [.close (lit "div")] (.content .data) :=
    reads_lit _ rfl (by decide)
  exact opens.append (named.append (next.append (numbered.append (done.append (Scans.append holds closes)))))

theorem spells_chips (paths : List Units) : Spells (paths.map chip).flatten (concat (paths.map chipTree)) := by
  induction paths with
  | nil => exact Spells.nil
  | cons path paths ih => exact (spells_chip path).append ih

theorem spells_action (m : ChatMessage) : Spells (renderActionRow m) (actionTree m) := by
  have icon : Spells (if m.action = some (lit "file_edit") then lit "✎" else lit "⚙")
      (.text (if m.action = some (lit "file_edit") then lit "✎" else lit "⚙")) := by
    split
    · exact spells_words _ rfl (by decide)
    · exact spells_words _ rfl (by decide)
  apply spells_message (words_mild _ rfl (by decide))
  apply Spells.append
  · exact spells_within rfl rfl rfl (.cons rfl rfl (.cons rfl rfl .nil)) (by decide) icon
  · apply spells_within rfl rfl rfl (.cons rfl rfl .nil) (by decide)
    apply Spells.append
    · split
      · exact spells_chips m.paths
      · cases m.tool with
        | none => exact Spells.nil
        | some tool =>
          dsimp only
          split
          · exact Spells.nil
          · exact spells_chip tool
    · exact spells_content m.content

theorem spells_bubble (m : ChatMessage) : Spells (renderChatBubble m) (bubbleTree m) := by
  apply spells_message
  · refine List.forall_mem_append.mpr ⟨words_mild _ rfl (by decide), ?_⟩
    split
    · exact words_mild _ rfl (by decide)
    · exact words_mild _ rfl (by decide)
  · exact spells_within rfl rfl rfl (.cons rfl rfl .nil) (by decide) (spells_content m.content)

theorem spells_rendered (m : ChatMessage) : Spells (renderMessage m) (messageTree m) := by
  unfold renderMessage messageTree
  split
  · exact spells_action m
  · exact spells_bubble m

theorem spells_divider : Spells versionDivider dividerTree := by
  apply spells_within rfl rfl rfl (.cons rfl rfl (.cons rfl rfl .nil)) (by decide)
  apply spells_within rfl rfl rfl .nil (by decide)
  exact spells_words _ rfl (by decide)

theorem spells_parts (messages : List ChatMessage) (prevVersion : Units) (first : Bool) :
    List.Forall₂ Spells (renderMessages prevVersion first messages) (partTrees prevVersion first messages) := by
  induction messages generalizing prevVersion first with
  | nil => exact .nil
  | cons m rest ih =>
    have tail (version : Units) : List.Forall₂ Spells (renderMessage m :: renderMessages version false rest)
        (messageTree m :: partTrees version false rest) := .cons (spells_rendered m) (ih version false)
    unfold renderMessages partTrees
    dsimp only
    by_cases moved : first = false ∧ m.versionId ≠ [] ∧ m.versionId ≠ prevVersion
    · rw [if_pos moved, if_pos moved]
      exact .cons spells_divider (tail _)
    · rw [if_neg moved, if_neg moved]
      exact tail _

theorem spells_join {separator : UInt16} {texts : List Units} {forests : List Forest} (mild : Mild separator)
    (parts : List.Forall₂ Spells texts forests) :
    Spells (join separator texts) (joinTrees (.text [separator]) forests) := by
  have between : Spells [separator] (.text [separator]) := spells_mild fun c mem => List.mem_singleton.mp mem ▸ mild
  induction parts with
  | nil => exact Spells.nil
  | cons first later ih =>
    cases later with
    | nil => exact first
    | cons second later => exact first.append (between.append ih)

def feed : Forest := .text (lit "\n")

def metaTree (attributes : List (String × String)) : Forest :=
  .void (lit "meta") (attributes.map fun pair => (lit pair.1, lit pair.2)) .nil

def headTree (title css : Units) : Forest :=
  .tag "head" [] (feed ++ (metaTree [("charset", "utf-8")] ++ (feed ++
    (metaTree [("name", "viewport"), ("content", "width=device-width, initial-scale=1")] ++ (feed ++
      (.tag "title" [] (.text title) ++ (feed ++ (.tag "style" [] (.text css) ++ feed))))))))

/-- A page with a title and a style, by what is in its body. -/
def documentTree (title css : Units) (inside : Forest) : Forest :=
  .doctype (feed ++ (.tag "html" [("lang", "en")]
    (feed ++ (headTree title css ++ (feed ++ (.tag "body" [] inside ++ feed)))) ++ feed))

def headerTree (t : ChatTranscript) : Forest :=
  .tag "header" [] (feed ++ (.tag "h1" [] (.text t.title) ++ (feed ++
    (.tag "span" [("class", "badge")] (.text (labelText t.sourceTool)) ++ (feed ++
      (.tag "span" [("class", "count")] (.text (countLine t.messages.length t.totalAppended)) ++ feed))))))

def emptyTree : Forest := .tag "p" [("class", "empty")] (.text (lit "No messages in this session yet."))

/-- What is in `main`. -/
def sessionTree (messages : List ChatMessage) : Forest :=
  if messages = [] then emptyTree else joinTrees feed (partTrees [] true messages)

section Page

variable (endsWord : Units → Units → Bool)

def footerTree (planTier : Option Units) : Forest :=
  if isFree endsWord planTier then
    .tag "footer" [] (.text (lit "Shared via ") ++
      .tag "a" [("href", "https://dropway.dev"), ("target", "_blank"), ("rel", "noopener noreferrer")]
        (.text (lit "Dropway")))
  else .nil

/-- What is in `body`. -/
def bodyTree (t : ChatTranscript) (planTier : Option Units) : Forest :=
  feed ++ (headerTree t ++ (feed ++ (.tag "main" [] (feed ++ (sessionTree t.messages ++ feed)) ++
    (feed ++ (footerTree endsWord planTier ++ feed)))))

end Page

def titleText (t : ChatTranscript) (host : Units) : Units := t.title ++ (lit " — " ++ host)

/-! ### Reading the page -/

theorem spells_feed : Spells (lit "\n") feed := spells_words _ rfl (by decide)

theorem lines_cons {line : String} {chars : Text} {lines : List String} {texts : List Text}
    (here : line = String.ofList chars) (later : List.Forall₂ (fun line chars => line = String.ofList chars) lines texts) :
    List.Forall₂ (fun line chars => line = String.ofList chars) (line :: lines) (chars :: texts) := .cons here later

theorem textOf_eq (lines : List String) (texts : List Text)
    (same : List.Forall₂ (fun line chars => line = String.ofList chars) lines texts) :
    textOf lines = texts.flatMap fun chars => ofText chars ++ [unit '\n'] := by
  unfold textOf
  induction same with
  | nil => rfl
  | cons first later ih =>
    rw [List.flatMap_cons, List.flatMap_cons, ih, lit_letters _ _ first]

theorem lines_plain {lines : List String} (texts : List Text)
    (same : List.Forall₂ (fun line chars => line = String.ofList chars) lines texts)
    (plain : ∀ chars ∈ texts, unit '<' ∉ ofText chars) : ∀ c ∈ textOf lines, c ≠ unit '<' := by
  rw [textOf_eq lines texts same]
  intro c mem
  obtain ⟨chars, here, inside⟩ := List.mem_flatMap.mp mem
  obtain letter | feed := List.mem_append.mp inside
  · exact fun same => plain chars here (same ▸ letter)
  · rw [List.mem_singleton.mp feed]
    decide

theorem css_plain : ∀ c ∈ textOf pageCss, c ≠ unit '<' := by
  apply lines_plain
  case same =>
    unfold pageCss
    dsimp only
    repeat apply lines_cons rfl
    exact .nil
  decide +kernel

theorem css_reads : Scans (.content (.rawtext (lit "style"))) (lit "\n" ++ textOf pageCss)
    (Forest.text (lit "\n" ++ textOf pageCss)).tokens (.content (.rawtext (lit "style"))) := by
  rw [Forest.tokens_text]
  apply reads_plain
  intro c mem
  refine ⟨?_, fun both => Bool.false_ne_true both.2⟩
  obtain start | line := List.mem_append.mp mem
  · exact (words_mild _ rfl (by decide) c start).1
  · exact css_plain c line

theorem spells_title (t : ChatTranscript) (host : Units) :
    Spells (within "<title>" (esc t.title ++ (lit " — " ++ esc host)) "</title>")
      (.tag "title" [] (.text (titleText t host))) := by
  have reads (s : Units) :
      Scans (.content (.rcdata (lit "title"))) (esc s) (s.map .char) (.content (.rcdata (lit "title"))) := by
    rw [esc_eq]
    exact reads_escape rfl s
  have dash :
      Scans (.content (.rcdata (lit "title"))) (lit " — ") ((lit " — ").map .char) (.content (.rcdata (lit "title"))) :=
    reads_plain fun c mem =>
      ⟨(words_mild _ rfl (by decide) c mem).1, fun both => (words_mild _ rfl (by decide) c mem).2.1 both.1⟩
  have whole : Scans (.content (.rcdata (lit "title"))) (esc t.title ++ (lit " — " ++ esc host))
      (Forest.text (titleText t host)).tokens (.content (.rcdata (lit "title"))) := by
    unfold titleText
    rw [Forest.tokens_text, List.map_append, List.map_append]
    exact (reads t.title).append (dash.append (reads host))
  exact spells_inside rfl rfl rfl .nil (by decide) whole

theorem spells_head (t : ChatTranscript) (host : Units) :
    Spells (within "<head>"
      (lit "\n<meta charset=\"utf-8\">\n<meta name=\"viewport\" content=\"width=device-width, initial-scale=1\">\n" ++
        (within "<title>" (esc t.title ++ (lit " — " ++ esc host)) "</title>" ++ (lit "\n" ++
          (within "<style>" (lit "\n" ++ textOf pageCss) "</style>" ++ lit "\n")))) "</head>")
      (headTree (titleText t host) (lit "\n" ++ textOf pageCss)) := by
  have metas : Spells
      (lit "\n<meta charset=\"utf-8\">\n<meta name=\"viewport\" content=\"width=device-width, initial-scale=1\">\n")
      (feed ++ (metaTree [("charset", "utf-8")] ++ (feed ++
        (metaTree [("name", "viewport"), ("content", "width=device-width, initial-scale=1")] ++ feed)))) :=
    reads_lit _ rfl (by decide)
  have style : Spells (within "<style>" (lit "\n" ++ textOf pageCss) "</style>")
      (.tag "style" [] (.text (lit "\n" ++ textOf pageCss))) :=
    spells_inside rfl rfl rfl .nil (by decide) css_reads
  have inside := metas.append ((spells_title t host).append (spells_feed.append (style.append spells_feed)))
  rw [Forest.append_assoc, Forest.append_assoc, Forest.append_assoc, Forest.append_assoc] at inside
  exact spells_within rfl rfl rfl .nil (by decide) inside

theorem spells_header (t : ChatTranscript) :
    Spells (within "<header>"
      (lit "\n" ++ (within "<h1>" (esc t.title) "</h1>" ++ (lit "\n" ++
        (within "<span class=\"badge\">" (sourceToolLabel t.sourceTool) "</span>" ++ (lit "\n" ++
          (within "<span class=\"count\">" (countLine t.messages.length t.totalAppended) "</span>" ++ lit "\n"))))))
      "</header>") (headerTree t) := by
  have title : Spells (within "<h1>" (esc t.title) "</h1>") (.tag "h1" [] (.text t.title)) :=
    spells_within rfl rfl rfl .nil (by decide) (spells_esc t.title)
  have badge : Spells (within "<span class=\"badge\">" (sourceToolLabel t.sourceTool) "</span>")
      (.tag "span" [("class", "badge")] (.text (labelText t.sourceTool))) :=
    spells_within rfl rfl rfl (.cons rfl rfl .nil) (by decide) (spells_label t.sourceTool)
  have count : Spells (within "<span class=\"count\">" (countLine t.messages.length t.totalAppended) "</span>")
      (.tag "span" [("class", "count")] (.text (countLine t.messages.length t.totalAppended))) :=
    spells_within rfl rfl rfl (.cons rfl rfl .nil) (by decide) (spells_mild (countLine_mild _ _))
  apply spells_within rfl rfl rfl .nil (by decide)
  apply spells_feed.append
  apply title.append
  apply spells_feed.append
  apply badge.append
  apply spells_feed.append
  exact count.append spells_feed

theorem renderMessages_eq_nil {messages : List ChatMessage} {prevVersion : Units} {first : Bool} :
    renderMessages prevVersion first messages = [] ↔ messages = [] := by
  cases messages with
  | nil => exact iff_of_true rfl rfl
  | cons m rest =>
    refine iff_of_false ?_ (List.cons_ne_nil _ _)
    unfold renderMessages
    dsimp only
    exact List.append_ne_nil_of_right_ne_nil _ (List.cons_ne_nil _ _)

theorem spells_session (messages : List ChatMessage) :
    Spells (if renderMessages [] true messages = [] then lit "<p class=\"empty\">No messages in this session yet.</p>"
      else join (unit '\n') (renderMessages [] true messages)) (sessionTree messages) := by
  unfold sessionTree
  by_cases empty : messages = []
  · rw [if_pos empty, if_pos (renderMessages_eq_nil.mpr empty)]
    exact reads_lit _ rfl (by decide)
  · rw [if_neg empty, if_neg fun none => empty (renderMessages_eq_nil.mp none)]
    exact spells_join (by decide) (spells_parts messages [] true)

theorem spells_footer (endsWord : Units → Units → Bool) (planTier : Option Units) :
    Spells (footer endsWord planTier) (footerTree endsWord planTier) := by
  unfold footer footerTree
  split
  · apply spells_within rfl rfl rfl .nil (by decide)
    apply (spells_words _ rfl (by decide)).append
    exact spells_within rfl rfl rfl (.cons rfl rfl (.cons rfl rfl (.cons rfl rfl .nil))) (by decide)
      (spells_words _ rfl (by decide))
  · exact Spells.nil

theorem spells_page (endsWord : Units → Units → Bool) {transcript : JsValue} {t : ChatTranscript} (host : Units)
    (planTier : Option Units) (parsed : parseTranscript transcript = some t) :
    Spells (renderChatPage endsWord transcript host planTier)
      (documentTree (titleText t host) (lit "\n" ++ textOf pageCss) (bodyTree endsWord t planTier)) := by
  have main := spells_feed.append ((spells_session t.messages).append spells_feed)
  have wrapped : Spells (within "<main>" _ "</main>") (.tag "main" [] _) :=
    spells_within rfl rfl rfl .nil (by decide) main
  have inside := spells_feed.append ((spells_header t).append (spells_feed.append (wrapped.append
    (spells_feed.append ((spells_footer endsWord planTier).append spells_feed)))))
  have body : Spells (within "<body>" _ "</body>") (.tag "body" [] _) :=
    spells_within rfl rfl rfl .nil (by decide) inside
  have both := spells_feed.append ((spells_head t host).append (spells_feed.append (body.append spells_feed)))
  have whole : Spells (within "<html lang=\"en\">" _ "</html>") (.tag "html" [("lang", "en")] _) :=
    spells_within rfl rfl rfl (.cons rfl rfl .nil) (by decide) both
  have start : Spells (lit "<!doctype html>\n") (.doctype feed) := reads_lit _ rfl (by decide)
  unfold renderChatPage
  rw [parsed]
  exact start.append (whole.append spells_feed)

/-! ### The page without a conversation -/

def unavailableCss : List String :=
  ["  :root \x7b color-scheme: light dark; \x7d",
   "  body \x7b font: 15px/1.6 system-ui, sans-serif; margin: 0;",
   "         display: grid; place-items: center; min-height: 100vh; \x7d",
   "  main \x7b text-align: center; padding: 2rem; max-width: 32rem; \x7d",
   "  h1 \x7b font-size: 1.4rem; margin: 0 0 .5rem; \x7d",
   "  p \x7b opacity: .7; \x7d"]

def unavailableTree : Forest :=
  .text (lit "\n  ") ++ (.tag "main" [] (.text (lit "\n    ") ++
    (.tag "h1" [] (.text (lit "Conversation unavailable")) ++ (.text (lit "\n    ") ++
      (.tag "p" [] (.text (lit "The session transcript for this site can't be shown right now.")) ++
        .text (lit "\n  "))))) ++ feed)

theorem spells_unavailable : Spells (textOf unavailableHtml)
    (documentTree (lit "Conversation unavailable") (lit "\n" ++ textOf unavailableCss) unavailableTree) := by
  have page := textOf_eq unavailableHtml _ (by
    unfold unavailableHtml
    repeat apply lines_cons rfl
    exact .nil)
  have css := textOf_eq unavailableCss _ (by
    unfold unavailableCss
    repeat apply lines_cons rfl
    exact .nil)
  unfold Spells unavailableTree
  rw [page, css, lit_letters "Conversation unavailable" _ rfl,
    lit_letters "The session transcript for this site can't be shown right now." _ rfl]
  decide +kernel

end Dropway.Edge.ChatPage
