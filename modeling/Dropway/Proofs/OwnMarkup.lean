import Dropway.Proofs.ChatMarkup

/-! The page of a conversation holds only the renderer's own tags, nested as it nests them,
and each message once, in order. -/

namespace Dropway.Edge.ChatPage
open Lib Lib.Units Lib.Html

/-! ### The renderer's own tags -/

/-- Every tag below `body` but those of the messages: its parent, its name and its attributes. -/
def ownTags : List (String × String × List (String × String)) :=
  [("body", "header", []), ("body", "main", []), ("body", "footer", []),
   ("header", "h1", []), ("header", "span", [("class", "badge")]), ("header", "span", [("class", "count")]),
   ("main", "h1", []), ("main", "p", []), ("main", "p", [("class", "empty")]),
   ("main", "div", [("class", "divider"), ("role", "separator")]), ("div", "span", []),
   ("div", "span", [("class", "icon"), ("aria-hidden", "true")]), ("div", "div", [("class", "act-body")]),
   ("div", "div", [("class", "bubble")]), ("div", "span", [("class", "chip")]),
   ("div", "p", [("class", "txt")]), ("p", "code", []), ("div", "pre", []), ("pre", "code", []),
   ("footer", "a", [("href", "https://dropway.dev"), ("target", "_blank"), ("rel", "noopener noreferrer")])]

def messageClasses : List String := ["action", "msg user", "msg assistant"]

/-- A message is a `div` right in `main`, and only its number is written into its tag. -/
def Own (parent name : Units) (attributes : Attributes) : Prop :=
  (∃ row ∈ ownTags, parent = lit row.1 ∧ name = lit row.2.1 ∧
    attributes = row.2.2.map fun pair => (lit pair.1, lit pair.2)) ∨
  parent = lit "main" ∧ name = lit "div" ∧ ∃ class_ ∈ messageClasses, ∃ seq : JsNumber,
    attributes = [(lit "class", lit class_), (lit "id", lit "msg-" ++ seq.text)]

theorem own_solid (parent name : Units) (attributes : Attributes) (own : Own parent name attributes) : name ∉ voids := by
  obtain ⟨row, mem, -, rfl, -⟩ | ⟨-, rfl, -⟩ := own
  · have all : ∀ name ∈ ["header", "main", "footer", "h1", "span", "p", "div", "pre", "code", "a"],
        lit name ∉ voids := by
      decide
    have known : row.2.1 ∈ ["header", "main", "footer", "h1", "span", "p", "div", "pre", "code", "a"] := by
      revert row
      decide
    exact all _ known
  · decide

/-- An element with a tag of the table. -/
theorem within_tag {parent name : String} {attributes : List (String × String)} {inside : Forest}
    (mem : (parent, name, attributes) ∈ ownTags) (holds : inside.Within Own (lit name)) :
    (Forest.tag name attributes inside).Within Own (lit parent) :=
  ⟨.inl ⟨_, mem, rfl, rfl, rfl⟩, holds, trivial⟩

theorem own_inline (s : Units) :
    (inlineTree none s).Within Own (lit "p") ∧ ∀ code, (inlineTree (some code) s).Within Own (lit "p") := by
  have text (units : Units) : (Forest.text units).Within Own (lit "p") := Forest.within_text Own _ units
  induction s with
  | nil => exact ⟨trivial, fun code => text (unit '`' :: code)⟩
  | cons c s ih =>
    obtain ⟨outside, pending⟩ := ih
    constructor
    · unfold inlineTree
      split
      · exact pending []
      · exact outside
    · intro code
      unfold inlineTree
      split
      · split
        · exact pending []
        · exact Forest.within_append (within_tag (by decide) (Forest.within_text Own _ code)) outside
      split
      · exact Forest.within_append (text _) outside
      · exact pending _

theorem own_flush (lines : List Units) : (flushTree lines).Within Own (lit "div") := by
  unfold flushTree
  dsimp only
  split
  · exact trivial
  · exact within_tag (by decide) (own_inline _).1

theorem own_code (lines : List Units) : (codeTree lines).Within Own (lit "div") :=
  within_tag (by decide) (within_tag (by decide) (Forest.within_text Own _ _))

theorem own_lines (block : Block) (lines : List Units) : (linesTree block lines).Within Own (lit "div") := by
  induction lines generalizing block with
  | nil =>
    cases block with
    | text lines => exact own_flush lines
    | code lines => exact own_code lines
  | cons line rest ih =>
    cases block with
    | text lines =>
      unfold linesTree
      split
      · exact Forest.within_append (own_flush lines) (ih _)
      · exact ih _
    | code lines =>
      unfold linesTree
      split
      · exact Forest.within_append (own_code lines) (ih _)
      · exact ih _

theorem own_content (src : Units) : (contentTree src).Within Own (lit "div") := own_lines _ _

theorem own_chip (text : Units) : (chipTree text).Within Own (lit "div") :=
  within_tag (by decide) (Forest.within_text Own _ text)

theorem own_chips (paths : List Units) : (concat (paths.map chipTree)).Within Own (lit "div") := by
  induction paths with
  | nil => exact trivial
  | cons path paths ih => exact Forest.within_append (own_chip path) ih

theorem own_message (class_ : String) (known : class_ ∈ messageClasses) (seq : JsNumber) {inside : Forest}
    (holds : inside.Within Own (lit "div")) : (messageNode (lit class_) seq inside).Within Own (lit "main") :=
  ⟨.inr ⟨rfl, rfl, class_, known, seq, rfl⟩, holds, trivial⟩

theorem own_action (m : ChatMessage) : (actionTree m).Within Own (lit "main") := by
  apply own_message "action" (by decide)
  apply Forest.within_append
  · exact within_tag (by decide) (Forest.within_text Own _ _)
  · apply within_tag (by decide)
    refine Forest.within_append ?_ (own_content m.content)
    split
    · exact own_chips m.paths
    · cases m.tool with
      | none => exact trivial
      | some tool =>
        dsimp only
        split
        · exact trivial
        · exact own_chip tool

theorem own_bubble (m : ChatMessage) : (bubbleTree m).Within Own (lit "main") := by
  have inside : (Forest.tag "div" [("class", "bubble")] (contentTree m.content)).Within Own (lit "div") :=
    within_tag (by decide) (own_content m.content)
  unfold bubbleTree
  dsimp only
  split
  · exact own_message "msg user" (by decide) m.seq inside
  · exact own_message "msg assistant" (by decide) m.seq inside

theorem own_rendered (m : ChatMessage) : (messageTree m).Within Own (lit "main") := by
  unfold messageTree
  split
  · exact own_action m
  · exact own_bubble m

theorem own_divider : dividerTree.Within Own (lit "main") :=
  within_tag (by decide) (within_tag (by decide) (Forest.within_text Own _ _))

theorem own_parts (messages : List ChatMessage) (prevVersion : Units) (first : Bool) :
    ∀ part ∈ partTrees prevVersion first messages, part.Within Own (lit "main") := by
  induction messages generalizing prevVersion first with
  | nil => exact List.forall_mem_nil _
  | cons m rest ih =>
    unfold partTrees
    dsimp only
    refine List.forall_mem_append.mpr ⟨?_, List.forall_mem_cons.mpr ⟨own_rendered m, ih _ _⟩⟩
    split
    · intro part mem
      rw [List.mem_singleton.mp mem]
      exact own_divider
    · exact List.forall_mem_nil _

theorem own_join {separator : Units} {parent : Units} {parts : List Forest}
    (own : ∀ part ∈ parts, part.Within Own parent) : (joinTrees (.text separator) parts).Within Own parent := by
  induction parts with
  | nil => exact trivial
  | cons first later ih =>
    obtain ⟨here, behind⟩ := List.forall_mem_cons.mp own
    cases later with
    | nil => exact here
    | cons second later => exact Forest.within_append here (Forest.within_append (Forest.within_text Own _ _) (ih behind))

theorem own_feed (parent : Units) : feed.Within Own parent := Forest.within_text Own parent _

theorem own_session (messages : List ChatMessage) : (sessionTree messages).Within Own (lit "main") := by
  unfold sessionTree
  split
  · exact within_tag (by decide) (Forest.within_text Own _ _)
  · exact own_join (own_parts messages [] true)

theorem own_header (t : ChatTranscript) : (headerTree t).Within Own (lit "body") := by
  apply within_tag (by decide)
  apply Forest.within_append (own_feed _)
  apply Forest.within_append (within_tag (by decide) (Forest.within_text Own _ _))
  apply Forest.within_append (own_feed _)
  apply Forest.within_append (within_tag (by decide) (Forest.within_text Own _ _))
  apply Forest.within_append (own_feed _)
  exact Forest.within_append (within_tag (by decide) (Forest.within_text Own _ _)) (own_feed _)

theorem own_footer (endsWord : Units → Units → Bool) (planTier : Option Units) :
    (footerTree endsWord planTier).Within Own (lit "body") := by
  unfold footerTree
  split
  · apply within_tag (by decide)
    apply Forest.within_append (Forest.within_text Own _ _)
    exact within_tag (by decide) (Forest.within_text Own _ _)
  · exact trivial

theorem own_body (endsWord : Units → Units → Bool) (t : ChatTranscript) (planTier : Option Units) :
    (bodyTree endsWord t planTier).Within Own (lit "body") := by
  apply Forest.within_append (own_feed _)
  apply Forest.within_append (own_header t)
  apply Forest.within_append (own_feed _)
  apply Forest.within_append
  · apply within_tag (by decide)
    exact Forest.within_append (own_feed _) (Forest.within_append (own_session t.messages) (own_feed _))
  · apply Forest.within_append (own_feed _)
    exact Forest.within_append (own_footer endsWord planTier) (own_feed _)

theorem own_unavailable : unavailableTree.Within Own (lit "body") := by
  have text (parent : Units) (words : String) : (Forest.text (lit words)).Within Own parent :=
    Forest.within_text Own parent _
  apply Forest.within_append (text _ _)
  refine Forest.within_append (within_tag (by decide) ?_) (own_feed _)
  apply Forest.within_append (text _ _)
  apply Forest.within_append (within_tag (by decide) (text _ _))
  apply Forest.within_append (text _ _)
  exact Forest.within_append (within_tag (by decide) (text _ _)) (text _ _)

theorem sound_document {inside : Forest} (title css : Units) (own : inside.Within Own (lit "body")) :
    (documentTree title css inside).Sound := by
  have line : feed.Sound := Forest.sound_text _
  have element {name : String} {attributes : List (String × String)} {inner : Forest} (solid : lit name ∉ voids)
      (sound : inner.Sound) : (Forest.tag name attributes inner).Sound := ⟨solid, sound, trivial⟩
  have void (attributes : List (String × String)) : (metaTree attributes).Sound := ⟨by decide, trivial⟩
  have head : (headTree title css).Sound := by
    apply element (by decide)
    apply Forest.sound_append line
    apply Forest.sound_append (void _)
    apply Forest.sound_append line
    apply Forest.sound_append (void _)
    apply Forest.sound_append line
    apply Forest.sound_append (element (by decide) (Forest.sound_text _))
    apply Forest.sound_append line
    exact Forest.sound_append (element (by decide) (Forest.sound_text _)) line
  have body : (Forest.tag "body" [] inside).Sound := element (by decide) (Forest.sound_within own_solid own)
  have both : (feed ++ (headTree title css ++ (feed ++ (.tag "body" [] inside ++ feed)))).Sound :=
    Forest.sound_append line (Forest.sound_append head (Forest.sound_append line (Forest.sound_append body line)))
  have html : (Forest.tag "html" [("lang", "en")] _).Sound := element (by decide) both
  exact Forest.sound_append line (Forest.sound_append html line)

/-! ### The messages of the page -/

theorem identified_message (m : ChatMessage) : (messageTree m).identified = [messageTree m] := by
  have named (class_ : Units) (seq : JsNumber) (inside : Forest) :
      (messageNode class_ seq inside).identified = [messageNode class_ seq inside] := by
    have other : (lit "id" == lit "class") = false := by decide
    have here : Forest.hasId [(lit "class", class_), (lit "id", lit "msg-" ++ seq.text)] = true := by
      unfold Forest.hasId
      rw [List.lookup_cons, other, List.lookup_cons_self]
      rfl
    unfold messageNode
    rw [Forest.identified, if_pos here]
    rfl
  unfold messageTree
  split
  · exact named _ _ _
  · exact named _ _ _

theorem identified_join (separator : Units) (parts : List Forest) :
    (joinTrees (.text separator) parts).identified = parts.flatMap Forest.identified := by
  induction parts with
  | nil => rfl
  | cons first later ih =>
    cases later with
    | nil => rw [List.flatMap_singleton]; rfl
    | cons second later =>
      change (first ++ (Forest.text separator ++ joinTrees (.text separator) (second :: later))).identified = _
      rw [Forest.identified_append, Forest.identified_append, Forest.identified_text, ih, List.nil_append]
      exact List.flatMap_cons.symm

theorem identified_parts (messages : List ChatMessage) (prevVersion : Units) (first : Bool) :
    (partTrees prevVersion first messages).flatMap Forest.identified = messages.map messageTree := by
  induction messages generalizing prevVersion first with
  | nil => rfl
  | cons m rest ih =>
    have divider : (if first = false ∧ m.versionId ≠ [] ∧ m.versionId ≠ prevVersion then [dividerTree]
        else []).flatMap Forest.identified = [] := by
      split
      · decide
      · rfl
    unfold partTrees
    dsimp only
    rw [List.flatMap_append, divider, List.flatMap_cons, ih, identified_message]
    rfl

theorem identified_session (messages : List ChatMessage) :
    (sessionTree messages).identified = messages.map messageTree := by
  unfold sessionTree
  by_cases empty : messages = []
  · rw [if_pos empty, empty]
    decide
  · rw [if_neg empty]
    unfold feed
    rw [identified_join]
    exact identified_parts messages [] true

theorem identified_body (endsWord : Units → Units → Bool) (t : ChatTranscript) (planTier : Option Units) :
    (bodyTree endsWord t planTier).identified = t.messages.map messageTree := by
  have line : feed.identified = [] := Forest.identified_text _
  have header : (headerTree t).identified = [] := by
    unfold headerTree
    simp (disch := decide) only [Forest.identified_append, Forest.identified_tag, Forest.identified_text, line,
      List.append_nil]
  have footer : (footerTree endsWord planTier).identified = [] := by
    unfold footerTree
    split
    · decide
    · rfl
  have main : (Forest.tag "main" [] (feed ++ (sessionTree t.messages ++ feed))).identified = t.messages.map messageTree := by
    rw [Forest.identified_tag (by decide), Forest.identified_append, Forest.identified_append, line,
      identified_session, List.nil_append, List.append_nil]
  unfold bodyTree
  simp only [Forest.identified_append, line, header, footer, main, List.nil_append, List.append_nil]

/-! ### The whole page -/

/-- What is in `body`, whether there is a conversation or not. -/
def bodyOf (endsWord : Units → Units → Bool) (transcript : JsValue) (planTier : Option Units) : Forest :=
  (parseTranscript transcript).elim unavailableTree fun t => bodyTree endsWord t planTier

def titleOf (transcript : JsValue) (host : Units) : Units :=
  (parseTranscript transcript).elim (lit "Conversation unavailable") fun t => titleText t host

def styleOf (transcript : JsValue) : Units :=
  (parseTranscript transcript).elim (lit "\n" ++ textOf unavailableCss) fun _ => lit "\n" ++ textOf pageCss

def messagesOf (transcript : JsValue) : List ChatMessage := (parseTranscript transcript).elim [] ChatTranscript.messages

end Dropway.Edge.ChatPage
