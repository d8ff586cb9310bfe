import Dropway.Chatspec.Normalize

/-! What an import stores would have been accepted as an append, but for tool uses without
a name. -/

namespace Dropway.Chatspec
open Lib

/-- What a message is made of: prose, or the use of a tool. -/
inductive Piece where
  | prose (role text : Text)
  | tool (part : ContentPart)

def Piece.message : Piece → Message
  | .prose role text => chat role text
  | .tool part => deriveAction part

def flushPiece (role buf : Text) : List Piece := if buf = [] then [] else [.prose role buf]

def partPieces (deriveActions : Bool) (role : Text) (buf : Text) : List ContentPart → List Piece
  | [] => flushPiece role buf
  | p :: rest =>
    if p.type = "text".toList then
      if blank p.text then partPieces deriveActions role buf rest
      else partPieces deriveActions role (paragraph buf p.text) rest
    else if p.type = "tool_use".toList then
      if deriveActions = false ∨ role ≠ roleAssistant then partPieces deriveActions role buf rest
      else flushPiece role buf ++ .tool p :: partPieces deriveActions role [] rest
    else partPieces deriveActions role buf rest

def contentPieces (deriveActions : Bool) (role : Text) (content : Doc) : List Piece :=
  match textOver [] content with
  | some text => if blank text then [] else [.prose role text]
  | none => partPieces deriveActions role [] ((decodeParts content).getD [])

/-- The turns and the tool uses of a line. -/
def linePieces (deriveActions : Bool) (line : Text) : List Piece :=
  match ((JsonText.parse line).bind decodeEvent).bind JsonlEvent.turn with
  | none => []
  | some (role, content) => contentPieces deriveActions role content

def pieces (raw : Text) (deriveActions : Bool) : List Piece :=
  (nonBlankLines raw).flatMap (linePieces deriveActions)

/-- The name is blank as far as it is kept. -/
def ContentPart.nameless (p : ContentPart) : Bool :=
  blank (Utf8.runeText ((Utf8.encode p.name).take maxToolNameLen))

/-- Of the pieces within the import limit, every tool use has a name. -/
def ToolsNamed (raw format : Text) (deriveActions : Bool) : Prop :=
  resolveFormat raw format = "claude_code".toList ∨ resolveFormat raw format = "jsonl".toList →
    ∀ p, Piece.tool p ∈
        (pieces raw deriveActions).drop ((pieces raw deriveActions).length - maxImportMessages) →
      p.nameless = false

/-! ### Blank texts -/

theorem blank_iff {text : Text} : blank text = true ↔ ∀ c ∈ text, Text.isWhite c = true := by
  rw [blank, List.isEmpty_iff, Text.trimSpace_eq_nil]

theorem not_blank_iff {text : Text} : blank text = false ↔ ∃ c ∈ text, Text.isWhite c = false := by
  rw [← Bool.not_eq_true, blank_iff]
  push Not
  simp only [ne_eq, Bool.not_eq_true]

theorem not_blank_of_sub {text more : Text} (visible : blank text = false) (sub : text ⊆ more) :
    blank more = false := by
  obtain ⟨c, mem, seen⟩ := not_blank_iff.mp visible
  exact not_blank_iff.mpr ⟨c, sub mem, seen⟩

theorem trimSpace_visible {text : Text} (visible : blank text = false) :
    blank (Text.trimSpace text) = false := by
  obtain ⟨c, mem, seen⟩ := not_blank_iff.mp visible
  exact not_blank_iff.mpr ⟨c, Text.mem_trimSpace seen mem, seen⟩

theorem paragraph_visible {buf text : Text} (visible : blank text = false) :
    blank (paragraph buf text) = false := by
  unfold paragraph
  split
  · exact visible
  · exact not_blank_of_sub visible (List.subset_append_right _ _)

/-! ### Truncated texts -/

private theorem byteLength_append (front back : Text) :
    byteLength (front ++ back) = byteLength front + byteLength back := by
  rw [byteLength, Utf8.encode, List.flatMap_append, List.length_append]
  rfl

private theorem byteLength_cons (c : Char) (rest : Text) :
    byteLength (c :: rest) = c.utf8Size + byteLength rest := by
  rw [byteLength, Utf8.encode, List.flatMap_cons, List.length_append, String.length_utf8EncodeChar]
  rfl

private theorem takeBytes_fits (size : Nat) (text : Text) : byteLength (takeBytes size text) ≤ size := by
  induction text generalizing size with
  | nil => exact Nat.zero_le _
  | cons c rest ih =>
    rw [takeBytes]
    split
    · rename_i fits
      have behind := ih (size - c.utf8Size)
      rw [byteLength_cons]
      omega
    · exact Nat.zero_le _

private theorem mark_fits : byteLength truncatedMark ≤ maxContentBytes := by decide

theorem truncate_fits (text : Text) : byteLength (truncate text) ≤ maxContentBytes := by
  unfold truncate
  split
  · assumption
  · have front := takeBytes_fits (maxContentBytes - byteLength truncatedMark) text
    have mark := mark_fits
    rw [byteLength_append]
    omega

theorem truncate_visible {text : Text} (visible : blank text = false) : blank (truncate text) = false := by
  unfold truncate
  split
  · exact visible
  · have mark : blank truncatedMark = false := by decide
    exact not_blank_of_sub mark (List.subset_append_right _ _)

/-! ### Valid messages -/

/-- A turn with a stored role that says something. -/
structure Said (m : Message) : Prop where
  turn : ∃ role text, m = chat role text
  role : m.role = roleUser ∨ m.role = roleAssistant
  visible : blank m.content = false

def shorten (m : Message) : Message := { m with content := truncate m.content }

theorem chat_valid {m : Message} (said : Said m) : validate (shorten m) = .ok () := by
  obtain ⟨⟨role, text, rfl⟩, stored, visible⟩ := said
  have fits := truncate_fits text
  have seen := truncate_visible visible
  have known : ¬ (role ≠ roleUser ∧ role ≠ roleAssistant) := fun unknown => stored.elim unknown.1 unknown.2
  have short : ¬ maxContentBytes < byteLength (truncate text) := by omega
  change blank (truncate text) = false at seen
  unfold validate shorten chat
  simp only [if_true, Option.isSome_none, Bool.false_eq_true, if_false, if_neg known, seen, false_and, if_neg short]
  rfl

private theorem action_eq (actionMeta : ActionMeta) :
    validate (shorten ⟨kindAction, roleAssistant, [], some actionMeta⟩) = validateMeta actionMeta := by
  have other : kindAction ≠ kindChat := by decide
  have known : ¬ (roleAssistant ≠ roleUser ∧ roleAssistant ≠ roleAssistant) := fun unknown => unknown.2 rfl
  have short : ¬ maxContentBytes < byteLength (truncate []) := by decide
  unfold validate shorten
  simp only [if_true, if_neg known, other, and_false, if_false, if_neg short]
  cases validateMeta actionMeta <;> rfl

private theorem facts_valid {actionMeta : ActionMeta} (short : actionMeta.tool.length ≤ maxToolNameLen)
    (few : actionMeta.paths.length ≤ maxActionPaths)
    (clean : ∀ path ∈ actionMeta.paths, cleanPath path = true) :
    validateMeta actionMeta = .ok () ↔
      actionMeta.action = actionToolUse ∧ blank (Utf8.runeText actionMeta.tool) = false ∨
        actionMeta.action = actionFileEdit ∧ actionMeta.paths ≠ [] := by
  have none : (actionMeta.paths.find? fun path => !cleanPath path) = none := by
    refine List.find?_eq_none.mpr fun path mem => ?_
    rw [clean path mem]
    exact Bool.false_ne_true
  have apart : actionFileEdit ≠ actionToolUse := by decide
  unfold validateMeta
  simp only [if_neg (Nat.not_lt.mpr short), if_neg (Nat.not_lt.mpr few), none]
  by_cases use : actionMeta.action = actionToolUse
  · simp only [use, true_and, apart.symm, false_and, or_false]
    cases blank (Utf8.runeText actionMeta.tool) with
    | true => exact iff_of_false (fun ok => by cases ok) (fun seen => by cases seen)
    | false => exact iff_of_true rfl rfl
  · simp only [use, false_and, false_or]
    by_cases edit : actionMeta.action = actionFileEdit
    · simp only [edit, true_and]
      by_cases bare : actionMeta.paths = []
      · simp only [if_pos bare]
        exact iff_of_false (fun ok => by cases ok) (fun some => some bare)
      · simp only [if_neg bare]
        exact iff_of_true rfl bare
    · simp only [edit, false_and]
      exact iff_of_false (fun ok => by cases ok) id

private theorem edit_named {p : ContentPart} (edit : p.name ∈ editTools) : p.nameless = false := by
  have all : editTools.all fun name =>
      !blank (Utf8.runeText ((Utf8.encode name).take maxToolNameLen)) := by decide +kernel
  have named := List.all_eq_true.mp all p.name edit
  rwa [Bool.not_eq_true'] at named

theorem action_valid_iff (p : ContentPart) :
    validate (shorten (deriveAction p)) = .ok () ↔ p.nameless = false := by
  have short : ((Utf8.encode p.name).take maxToolNameLen).length ≤ maxToolNameLen := List.length_take_le _ _
  have apart : actionFileEdit ≠ actionToolUse := by decide
  unfold deriveAction
  simp only
  rw [action_eq]
  split
  · rename_i path
    have clean : ∀ other ∈ [inputPath p], cleanPath other = true := by
      intro other mem
      rw [List.mem_singleton.mp mem]
      exact path.2
    have one : [inputPath p].length ≤ maxActionPaths := by
      rw [List.length_singleton]
      decide
    split
    · rename_i edit
      rw [facts_valid (Nat.zero_le _) one clean]
      exact iff_of_true (Or.inr ⟨rfl, List.cons_ne_nil _ _⟩) (edit_named edit)
    · rw [facts_valid short one clean]
      simp [apart.symm, ContentPart.nameless]
  · rw [facts_valid short (Nat.zero_le _) (fun other mem => absurd mem List.not_mem_nil)]
    simp [ContentPart.nameless]

/-! ### What the readers make -/

variable {deriveActions : Bool} {role buf : Text}

private theorem canonicalRole_stored {given eventType : Text} (known : canonicalRole given eventType = some role) :
    role = roleUser ∨ role = roleAssistant := by
  unfold canonicalRole at known
  split at known
  · exact Or.inl (Option.some.inj known).symm
  split at known
  · exact Or.inr (Option.some.inj known).symm
  split at known
  · exact Or.inl (Option.some.inj known).symm
  split at known
  · exact Or.inr (Option.some.inj known).symm
  · cases known

private theorem flush_pieces (role buf : Text) : flush role buf = (flushPiece role buf).map Piece.message := by
  unfold flush flushPiece
  split <;> rfl

private theorem partMessages_pieces (parts : List ContentPart) :
    partMessages deriveActions role buf parts =
      (partPieces deriveActions role buf parts).map Piece.message := by
  induction parts generalizing buf with
  | nil => exact flush_pieces role buf
  | cons p rest ih =>
    rw [partMessages, partPieces]
    split
    · split
      · exact ih
      · exact ih
    split
    · split
      · exact ih
      · rw [List.map_append, List.map_cons, ← flush_pieces, ← ih]
        rfl
    · exact ih

private theorem contentMessages_pieces (content : Doc) :
    contentMessages deriveActions role content =
      (contentPieces deriveActions role content).map Piece.message := by
  unfold contentMessages contentPieces
  cases textOver [] content with
  | some text =>
    simp only
    split <;> rfl
  | none =>
    simp only
    rw [← partMessages_pieces]
    cases decodeParts content with
    | none => rfl
    | some parts => rfl

private theorem lineMessages_pieces (line : Text) :
    lineMessages deriveActions line = (linePieces deriveActions line).map Piece.message := by
  unfold lineMessages linePieces
  cases ((JsonText.parse line).bind decodeEvent).bind JsonlEvent.turn with
  | none => rfl
  | some turn => exact contentMessages_pieces turn.2

theorem normalizeJSONL_pieces (raw : Text) :
    normalizeJSONL raw deriveActions = (pieces raw deriveActions).map Piece.message := by
  rw [normalizeJSONL, pieces, List.map_flatMap]
  exact List.flatMap_congr fun line _ => lineMessages_pieces line

/-- The prose of a piece is a stored role saying something. -/
def Piece.Spoken : Piece → Prop
  | .prose role text => Said (chat role text)
  | .tool _ => True

private theorem said_chat (stored : role = roleUser ∨ role = roleAssistant) {text : Text}
    (visible : blank text = false) : Said (chat role text) :=
  ⟨⟨role, text, rfl⟩, stored, visible⟩

private theorem flushPiece_spoken (stored : role = roleUser ∨ role = roleAssistant)
    (visible : buf ≠ [] → blank buf = false) : ∀ piece ∈ flushPiece role buf, piece.Spoken := by
  intro piece mem
  unfold flushPiece at mem
  split at mem
  · cases mem
  · rename_i filled
    rw [List.mem_singleton.mp mem]
    exact said_chat stored (visible filled)

private theorem partPieces_spoken (stored : role = roleUser ∨ role = roleAssistant)
    (visible : buf ≠ [] → blank buf = false) (parts : List ContentPart) :
    ∀ piece ∈ partPieces deriveActions role buf parts, piece.Spoken := by
  induction parts generalizing buf with
  | nil => exact flushPiece_spoken stored visible
  | cons p rest ih =>
    rw [partPieces]
    split
    · split
      · exact ih visible
      · rename_i seen
        exact ih fun _ => paragraph_visible (Bool.eq_false_iff.mpr seen)
    split
    · split
      · exact ih visible
      · intro piece mem
        rcases List.mem_append.mp mem with before | after
        · exact flushPiece_spoken stored visible piece before
        · rcases List.mem_cons.mp after with rfl | later
          · trivial
          · exact ih (fun filled => absurd rfl filled) piece later
    · exact ih visible

theorem pieces_spoken (raw : Text) : ∀ piece ∈ pieces raw deriveActions, piece.Spoken := by
  intro piece mem
  obtain ⟨line, -, inside⟩ := List.mem_flatMap.mp mem
  unfold linePieces at inside
  split at inside
  · cases inside
  · rename_i role content found
    have stored : role = roleUser ∨ role = roleAssistant := by
      obtain ⟨ev, -, turn⟩ := Option.bind_eq_some_iff.mp found
      unfold JsonlEvent.turn at turn
      simp only [Option.bind_eq_bind, Option.bind_eq_some_iff, Option.pure_def] at turn
      obtain ⟨given, known, _, _, same⟩ := turn
      rw [← (Prod.mk.inj (Option.some.inj same)).1]
      exact canonicalRole_stored known
    unfold contentPieces at inside
    split at inside
    · split at inside
      · cases inside
      · rename_i seen
        rw [List.mem_singleton.mp inside]
        exact said_chat stored (Bool.eq_false_iff.mpr seen)
    · exact partPieces_spoken stored (fun filled => absurd rfl filled) _ piece inside

private theorem exportMessage_said {m : ExportMessage} {made : Message} (found : exportMessage m = some made) :
    Said made := by
  unfold exportMessage at found
  simp only [Option.bind_eq_bind, Option.bind_eq_some_iff, Option.ite_none_left_eq_some,
    Option.some.injEq] at found
  obtain ⟨role, known, text, -, seen, rfl⟩ := found
  exact said_chat (canonicalRole_stored known) (Bool.eq_false_iff.mpr seen)

private theorem addPart_visible (visible : buf ≠ [] → blank buf = false) (part : Doc) :
    addPart buf part ≠ [] → blank (addPart buf part) = false := by
  unfold addPart
  split
  · exact visible
  · split
    · exact visible
    · rename_i seen
      exact fun _ => paragraph_visible (Bool.eq_false_iff.mpr seen)

private theorem partsText_visible (parts : List Doc) :
    partsText parts ≠ [] → blank (partsText parts) = false := by
  have step (buf : Text) (visible : buf ≠ [] → blank buf = false) :
      parts.foldl addPart buf ≠ [] → blank (parts.foldl addPart buf) = false := by
    induction parts generalizing buf with
    | nil => exact visible
    | cons part rest ih => exact ih _ (addPart_visible visible part)
  exact step [] fun filled => absurd rfl filled

private theorem timedNode_said {message : Option NodeMessage} {node : Timed}
    (found : timedNode message = some node) : Said (chat node.role node.text) := by
  unfold timedNode at found
  simp only [Option.bind_eq_bind, Option.bind_eq_some_iff, Option.ite_none_left_eq_some,
    Option.some.injEq] at found
  obtain ⟨message, -, role, known, filled, rfl⟩ := found
  exact said_chat (canonicalRole_stored known) (partsText_visible message.parts filled)

theorem export_said (doc : ChatgptExport) : ∀ m ∈ doc.normalize, Said m := by
  intro m mem
  unfold ChatgptExport.normalize at mem
  split at mem
  · obtain ⟨node, inside, rfl⟩ := List.mem_map.mp mem
    obtain ⟨_, -, found⟩ := List.mem_filterMap.mp ((List.mem_insertionSort _).mp inside)
    exact timedNode_said found
  · obtain ⟨_, -, found⟩ := List.mem_filterMap.mp mem
    exact exportMessage_said found

private theorem flushText_said (stored : role = roleUser ∨ role = roleAssistant) :
    ∀ m ∈ flushText role buf, Said m := by
  intro m mem
  unfold flushText at mem
  split at mem
  · cases mem
  · rename_i seen
    rw [List.mem_singleton.mp mem]
    exact said_chat stored (trimSpace_visible (Bool.eq_false_iff.mpr seen))

private theorem speakers_stored : ∀ speaker ∈ speakers, speaker.2 = roleUser ∨ speaker.2 = roleAssistant := by
  decide

private theorem textMessages_said (stored : role = roleUser ∨ role = roleAssistant) (lines : List Text) :
    ∀ m ∈ textMessages role buf lines, Said m := by
  induction lines generalizing role buf with
  | nil => exact flushText_said stored
  | cons line rest ih =>
    rw [textMessages]
    split
    · rename_i speaker said marked
      have known : speaker = roleUser ∨ speaker = roleAssistant := by
        obtain ⟨entry, found, same⟩ := Option.map_eq_some_iff.mp marked
        rw [← (Prod.mk.inj same).1]
        exact speakers_stored entry (List.mem_of_find?_eq_some found)
      intro m mem
      rcases List.mem_append.mp mem with before | after
      · exact flushText_said stored m before
      · exact ih known m after
    · exact ih stored

/-! ### The import -/

variable {iteration : Iteration} {raw format : Text} {all msgs : List Message} {dropped : Nat}

private theorem normalize_ok (imported : normalize iteration raw format deriveActions = .ok (msgs, dropped)) :
    ∃ all, readFormat iteration raw (resolveFormat raw format) deriveActions = .ok all ∧
      msgs = (all.map shorten).drop (all.length - maxImportMessages) := by
  unfold normalize at imported
  split at imported
  · cases imported
  split at imported
  · cases imported
  · cases imported
  · rename_i all _ read
    refine ⟨all, read, ?_⟩
    have kept := (Prod.mk.inj (Except.ok.inj imported)).1
    simp only [List.length_map] at kept
    exact kept.symm

/-- Every reader but that of JSONL makes turns only. -/
private theorem readFormat_cases {read : Text}
    (made : readFormat iteration raw read deriveActions = .ok all) :
    ((read = "claude_code".toList ∨ read = "jsonl".toList) ∧ all = normalizeJSONL raw deriveActions) ∨
      (¬ (read = "claude_code".toList ∨ read = "jsonl".toList) ∧ ∀ m ∈ all, Said m) := by
  unfold readFormat at made
  split at made
  · rename_i jsonl
    exact Or.inl ⟨jsonl, (Except.ok.inj made).symm⟩
  · rename_i other
    refine Or.inr ⟨other, ?_⟩
    split at made
    · unfold normalizeChatGPT at made
      split at made
      · cases made
      · rw [← Except.ok.inj made]
        exact export_said _
    split at made
    · rw [← Except.ok.inj made]
      exact textMessages_said (Or.inl rfl) _
    · cases made

private theorem piece_valid_iff {piece : Piece} (spoken : piece.Spoken) :
    validate (shorten piece.message) = .ok () ↔ ∀ p, piece = .tool p → p.nameless = false := by
  cases piece with
  | prose role text => exact iff_of_true (chat_valid spoken) fun p same => by cases same
  | tool part =>
    rw [Piece.message, action_valid_iff]
    constructor
    · intro named p same
      cases same
      exact named
    · intro named
      exact named part rfl

private theorem pieces_valid_iff {kept : List Piece} (spoken : ∀ piece ∈ kept, piece.Spoken) :
    (∀ m ∈ (kept.map Piece.message).map shorten, validate m = .ok ()) ↔
      ∀ p, Piece.tool p ∈ kept → p.nameless = false := by
  rw [List.map_map]
  constructor
  · intro valid p mem
    have own := valid _ (List.mem_map.mpr ⟨.tool p, mem, rfl⟩)
    have spoken : Piece.Spoken (.tool p) := trivial
    exact (piece_valid_iff spoken).mp own p rfl
  · intro named m mem
    obtain ⟨piece, inside, rfl⟩ := List.mem_map.mp mem
    exact (piece_valid_iff (spoken piece inside)).mpr fun p same => named p (same ▸ inside)

/-- An import within the limit is storable just where the tools that are left have names. -/
theorem import_valid_iff (imported : normalize iteration raw format deriveActions = .ok (msgs, dropped)) :
    ((∀ m ∈ msgs, validate m = .ok ()) ∧ msgs.length ≤ maxImportMessages) ↔
      ToolsNamed raw format deriveActions := by
  obtain ⟨all, read, same⟩ := normalize_ok imported
  rw [same]
  have few : ((all.map shorten).drop (all.length - maxImportMessages)).length ≤ maxImportMessages := by
    rw [List.length_drop, List.length_map]
    omega
  rw [and_iff_left few]
  rcases readFormat_cases read with ⟨jsonl, rfl⟩ | ⟨other, said⟩
  · have count : (normalizeJSONL raw deriveActions).length = (pieces raw deriveActions).length := by
      rw [normalizeJSONL_pieces, List.length_map]
    have spoken : ∀ piece ∈ (pieces raw deriveActions).drop
        ((pieces raw deriveActions).length - maxImportMessages), piece.Spoken :=
      fun piece mem => pieces_spoken raw piece (List.mem_of_mem_drop mem)
    rw [count, normalizeJSONL_pieces, ← List.map_drop, ← List.map_drop, pieces_valid_iff spoken]
    exact ⟨fun named _ => named, fun named => named jsonl⟩
  · refine iff_of_true (fun m mem => ?_) fun jsonl => absurd jsonl other
    obtain ⟨turn, inside, rfl⟩ := List.mem_map.mp (List.mem_of_mem_drop mem)
    exact chat_valid (said turn inside)

/-- A tool use of an assistant; its name is blank or not. -/
def toolLine (name : Text) : Text :=
  "\x7b\"role\":\"assistant\",\"content\":[\x7b\"type\":\"tool_use\",\"name\":\"".toList ++ name ++
    "\"\x7d]\x7d".toList

theorem tool_imported : normalize forwards (toolLine "Bash".toList) "jsonl".toList true =
    .ok ([⟨kindAction, roleAssistant, [], some ⟨actionToolUse, Utf8.encode "Bash".toList, []⟩⟩], 0) := by
  decide +kernel

theorem import_valid_bash :
    ((∀ m ∈ [Message.mk kindAction roleAssistant [] (some ⟨actionToolUse, Utf8.encode "Bash".toList, []⟩)],
        validate m = .ok ()) ∧ 1 ≤ maxImportMessages) ↔ ToolsNamed (toolLine "Bash".toList) "jsonl".toList true :=
  import_valid_iff tool_imported

/-- A tool use without a name is stored and would not be accepted. -/
theorem nameless_tool_invalid :
    ¬ ∀ (iteration : Iteration) (raw format : Text) (deriveActions : Bool) (msgs : List Message) (dropped : Nat),
      normalize iteration raw format deriveActions = .ok (msgs, dropped) →
        (∀ m ∈ msgs, validate m = .ok ()) ∧ msgs.length ≤ maxImportMessages := by
  intro valid
  have ran : normalize forwards (toolLine []) "jsonl".toList true =
      .ok ([⟨kindAction, roleAssistant, [], some ⟨actionToolUse, [], []⟩⟩], 0) := by
    decide +kernel
  have stored := (valid _ _ _ _ _ _ ran).1 _ (List.mem_singleton_self _)
  exact absurd stored (by decide +kernel)

end Dropway.Chatspec
