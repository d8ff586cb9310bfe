import Dropway.Api.MemoryExtract
import Dropway.Lib.Calls
import Dropway.Lib.Ascii
import Dropway.Lib.Runes
import Dropway.Proofs.ChatTail
import Dropway.Proofs.ChatTranscript
import Mathlib.Tactic.FinCases

/-! What the extraction watermark of a chat log has covered. A message below it has
been in a transcript that was sent, as long as no transcript was cut. -/

namespace Dropway.Api
open Lib Lib.Outcome Calls
open ChatDb

/-! ### What is sent of a message -/

/-- The bytes of a message's line. -/
def lineSize (m : ChatMessageRow) : Nat := (Utf8.encode m.role).length + (Utf8.encode m.content).length + 3

/-- What a pass is to send fits, and does not end in white space. -/
structure SendsWhole (msgs : List ChatMessageRow) : Prop where
  fits : ((msgs.filter extractable).map lineSize).sum ≤ maxExtractInput + 1
  ends : ∀ m, (msgs.filter extractable).getLast? = some m → ∀ c, m.content.getLast? = some c → Text.isWhite c = false

private theorem extractable_content {m : ChatMessageRow} (extracts : extractable m = true) : m.content ≠ [] := by
  rintro blank
  unfold extractable at extracts
  rw [blank] at extracts
  exact (of_decide_eq_true extracts).2 rfl

private theorem encode_lines (lines : List ChatMessageRow) :
    (Utf8.encode (lines.flatMap extractLine)).length = (lines.map lineSize).sum := by
  induction lines with
  | nil => rfl
  | cons m rest ih =>
    rw [List.flatMap_cons, Utf8.encode_append, List.length_append, ih, List.map_cons, List.sum_cons]
    have punctuation : (Utf8.encode ": ".toList).length = 2 ∧ (Utf8.encode ['\n']).length = 1 := by decide
    simp only [extractLine, lineSize, Utf8.encode_append, List.length_append, punctuation]
    omega

/-- What the lines end in. -/
private theorem lines_end {lines : List ChatMessageRow} {m : ChatMessageRow} (last : lines.getLast? = some m) :
    ∃ front, lines.flatMap extractLine = front ++ ':' :: ' ' :: m.content ++ ['\n'] := by
  obtain ⟨earlier, rfl⟩ := List.getLast?_eq_some_iff.mp last
  refine ⟨earlier.flatMap extractLine ++ m.role, ?_⟩
  simp only [List.flatMap_append, List.flatMap_cons, List.flatMap_nil, List.append_nil, extractLine, List.append_assoc]
  rfl

private theorem white_newline : ∀ c ∈ ['\n'], Text.isWhite c = true := by
  intro c mem
  rw [List.mem_singleton.mp mem]
  decide

/-- Every message is in what is left of its line's text when white space is taken
away from the ends. -/
private theorem content_infix {lines : List ChatMessageRow} (visible : ∀ m ∈ lines, m.content ≠ [])
    (ends : ∀ m, lines.getLast? = some m → ∀ c, m.content.getLast? = some c → Text.isWhite c = false)
    {m : ChatMessageRow} (mem : m ∈ lines) : m.content <:+: Text.trimSpace (lines.flatMap extractLine) := by
  have colon : Text.isWhite ':' = false := by decide
  obtain ⟨earlier, later, rfl⟩ := List.append_of_mem mem
  cases isLast : later.getLast? with
  | none =>
    rw [List.getLast?_eq_none_iff] at isLast
    subst isLast
    have isFinal : (earlier ++ [m]).getLast? = some m := List.getLast?_concat
    obtain ⟨front, text⟩ := lines_end isFinal
    have last := ends m isFinal
    obtain ⟨c, isChar⟩ := Option.isSome_iff_exists.mp (List.getLast?_isSome.mpr (visible m mem))
    obtain ⟨start, split⟩ := List.getLast?_eq_some_iff.mp isChar
    rw [text, Text.trimSpace_append_white _ white_newline]
    have inside := Text.infix_trimSpace colon (last c isChar) front (' ' :: start)
    have part : m.content <:+: ':' :: (' ' :: start) ++ [c] := ⟨[':', ' '], [], by rw [split]; simp⟩
    have shape : front ++ ':' :: ' ' :: m.content = front ++ (':' :: (' ' :: start) ++ [c]) := by rw [split]; simp
    rw [shape]
    exact part.trans inside
  | some final =>
    obtain ⟨front, text⟩ := lines_end isLast
    have isFinal : (earlier ++ m :: later).getLast? = some final := by
      rw [List.getLast?_append, List.getLast?_cons, isLast]
      rfl
    have finalMem : final ∈ earlier ++ m :: later := List.mem_of_getLast? isFinal
    obtain ⟨c, isChar⟩ := Option.isSome_iff_exists.mp (List.getLast?_isSome.mpr (visible final finalMem))
    obtain ⟨start, split⟩ := List.getLast?_eq_some_iff.mp isChar
    have whole : (earlier ++ m :: later).flatMap extractLine =
        (earlier.flatMap extractLine ++ m.role) ++
          (':' :: (' ' :: m.content ++ '\n' :: front ++ ':' :: ' ' :: start) ++ [c]) ++ ['\n'] := by
      rw [List.flatMap_append, List.flatMap_cons, text, split]
      simp [extractLine]
    rw [whole, Text.trimSpace_append_white _ white_newline]
    have inside := Text.infix_trimSpace colon (ends final isFinal c isChar) (earlier.flatMap extractLine ++ m.role)
      (' ' :: m.content ++ '\n' :: front ++ ':' :: ' ' :: start)
    have part : m.content <:+: ':' :: (' ' :: m.content ++ '\n' :: front ++ ':' :: ' ' :: start) ++ [c] :=
      ⟨[':', ' '], '\n' :: front ++ ':' :: ' ' :: start ++ [c], by simp⟩
    exact part.trans inside

private theorem encode_part {part text : Text} (inside : part <:+: text) : Utf8.encode part <:+: Utf8.encode text := by
  obtain ⟨front, back, rfl⟩ := inside
  exact ⟨Utf8.encode front, Utf8.encode back, by rw [Utf8.encode_append, Utf8.encode_append]⟩

/-- A pass that sends its lines whole sends every message. -/
theorem sent_whole {msgs : List ChatMessageRow} (whole : SendsWhole msgs) {m : ChatMessageRow} (mem : m ∈ msgs)
    (extracts : extractable m = true) : Utf8.encode m.content <:+: extractInput (extractText msgs) := by
  have listed : m ∈ msgs.filter extractable := List.mem_filter.mpr ⟨mem, extracts⟩
  have visible (other : ChatMessageRow) (otherMem : other ∈ msgs.filter extractable) : other.content ≠ [] :=
    extractable_content (List.mem_filter.mp otherMem).2
  have inside := content_infix visible whole.ends listed
  have short : (Utf8.encode (Text.trimSpace (extractText msgs))).length ≤ maxExtractInput := by
    obtain ⟨final, isFinal⟩ := Option.isSome_iff_exists.mp (List.getLast?_isSome.mpr (List.ne_nil_of_mem listed))
    obtain ⟨front, text⟩ := lines_end isFinal
    have size := encode_lines (msgs.filter extractable)
    have fits := whole.fits
    rw [text, Utf8.encode_append, List.length_append] at size
    unfold extractText
    rw [text, Text.trimSpace_append_white _ white_newline]
    have smaller := (encode_part (Text.trimSpace_infix (front ++ ':' :: ' ' :: final.content))).length_le
    have one : (Utf8.encode ['\n']).length = 1 := by decide
    omega
  unfold extractInput
  rw [if_neg (by omega)]
  exact encode_part inside

/-! ### Calls -/

/-- A change of the chat logs, or a pass over one of them. -/
inductive MemoryCall where
  | change (op : ChatOp)
  | changed
  | pass (stage : ExtractStage)

def memoryRequests (t : Tenant) (logId : Text) : Program Outside MemoryCall MemoryDb
  | _, .change op, db => some (.changed, { db with chats := op.commit db.chats })
  | _, .changed, _ => none
  | outside, .pass stage, db => (extractNext t logId outside stage db).map fun after => (.pass after.1, after.2)

/-- The log as the pass read it. -/
def ExtractStage.log : ExtractStage → List ChatMessageRow
  | .starting | .enabled | .reading _ => []
  | .sending slice | .embedding slice _ | .storing slice _ | .advancing slice | .completed slice => slice.log
  | .stopped log => log

/-- What the pass is about. -/
def ExtractStage.slice? : ExtractStage → Option ExtractSlice
  | .sending slice | .embedding slice _ | .storing slice _ | .advancing slice => some slice
  | _ => none

def ExtractStage.completed? : ExtractStage → Option ExtractSlice
  | .completed slice => some slice
  | _ => none

def MemoryCall.stage : MemoryCall → ExtractStage
  | .pass stage => stage
  | _ => .starting

variable {κ : Type} [DecidableEq κ] {t : Tenant} {logId : Text}

abbrev MemoryState (κ : Type) := State κ MemoryCall MemoryDb

/-- A pass that completed sent the message in full. -/
def Distilled (state : MemoryState κ) (m : ChatMessageRow) : Prop :=
  ∃ call slice, (state.position call).stage.completed? = some slice ∧ Utf8.encode m.content <:+: slice.transcript

/-- The condition on a step: a pass that reads can send what it reads whole, and no
message that a pass has read is taken out of the log before the watermark is past it. -/
structure Extracts (t : Tenant) (logId : Text) (state : MemoryState κ) (act : Act κ Outside) : Prop where
  whole : ∀ since, state.position act.1 = .pass (.reading since) →
    SendsWhole (state.store.chats.listChatMessages logId t.orgId (int32 since) 500)
  keeps : ∀ op, state.position act.1 = .change op → ∀ m ∈ state.store.chats.messagesOf logId t.orgId,
    extractable m = true → m ∉ (op.commit state.store.chats).messagesOf logId t.orgId →
    state.store.memoryIngestSeq t logId < m.seq → ∀ call, m ∉ (state.position call).stage.log

/-! ### A step of a pass -/

/-- What a step of a pass does. -/
inductive PassStep (t : Tenant) (logId : Text) (db : MemoryDb) : ExtractStage → ExtractStage → MemoryDb → Prop
  | begins : PassStep t logId db .starting .enabled db
  | watermark : PassStep t logId db .enabled (.reading (db.memoryIngestSeq t logId)) db
  | unread {since : Int} : PassStep t logId db (.reading since) (.stopped (db.chats.messagesOf logId t.orgId)) db
  | reads {since : Int} {moved : ExtractStage} {msgs : List ChatMessageRow}
      (listed : msgs = db.chats.listChatMessages logId t.orgId (int32 since) 500) (some : msgs ≠ [])
      (slice : moved.slice? = .some ⟨db.chats.messagesOf logId t.orgId, extractInput (extractText msgs),
        extractThrough since msgs⟩) : PassStep t logId db (.reading since) moved db
  | stops {stage : ExtractStage} (unread : ∀ since, stage ≠ .reading since) (running : stage.completed? = none) :
      PassStep t logId db stage (.stopped stage.log) db
  | moves {stage moved : ExtractStage} {slice : ExtractSlice} (before : stage.slice? = some slice)
      (after : moved.slice? = some slice) : PassStep t logId db stage moved db
  | advances {slice : ExtractSlice} :
      PassStep t logId db (.advancing slice) (.completed slice) (db.advanceMemoryIngest t logId slice.throughSeq)

theorem log_of_slice {stage : ExtractStage} {slice : ExtractSlice} (found : stage.slice? = some slice) :
    stage.log = slice.log ∧ stage.completed? = none := by
  cases stage <;> cases found <;> exact ⟨rfl, rfl⟩

private theorem readSlice_step (since : Int) (db : MemoryDb) :
    PassStep t logId db (.reading since) (readSlice t logId since db) db := by
  unfold readSlice
  cases db.chats.getChatLogTx t logId with
  | error => exact .unread
  | ok found =>
    by_cases empty : db.chats.listChatMessages logId t.orgId (int32 since) 500 = []
    · simp only [if_pos empty]
      exact .unread
    · simp only [if_neg empty]
      refine .reads rfl empty ?_
      split <;> rfl

theorem extract_step {outside : Outside} {stage moved : ExtractStage} {db stored : MemoryDb}
    (ran : extractNext t logId outside stage db = some (moved, stored)) : PassStep t logId db stage moved stored := by
  cases stage with
  | starting =>
    cases outside with
    | fails =>
      cases ran
      exact .stops (fun _ same => by cases same) rfl
    | succeeds | answers | nearDuplicate | memoryQuota =>
      cases ran
      exact .begins
  | enabled =>
    cases outside with
    | fails =>
      cases ran
      exact .stops (fun _ same => by cases same) rfl
    | succeeds | answers | nearDuplicate | memoryQuota =>
      cases ran
      exact .watermark
  | reading since =>
    cases outside with
    | fails =>
      cases ran
      exact .unread
    | succeeds | answers | nearDuplicate | memoryQuota =>
      cases ran
      exact readSlice_step since db
  | sending slice =>
    cases outside with
    | fails =>
      cases ran
      exact .stops (fun _ same => by cases same) rfl
    | answers candidates =>
      simp only [extractNext] at ran
      split at ran <;> cases ran <;> exact .moves rfl rfl
    | succeeds | nearDuplicate | memoryQuota => cases ran
  | embedding slice candidates =>
    cases outside with
    | fails =>
      cases ran
      exact .stops (fun _ same => by cases same) rfl
    | succeeds | answers | nearDuplicate | memoryQuota =>
      cases ran
      exact .moves rfl rfl
  | storing slice candidates =>
    cases candidates with
    | nil => cases outside <;> cases ran <;> exact .moves rfl rfl
    | cons candidate rest =>
      cases outside with
      | fails =>
        cases ran
        exact .stops (fun _ same => by cases same) rfl
      | succeeds | answers | nearDuplicate | memoryQuota =>
        cases ran
        exact .moves rfl rfl
  | advancing slice =>
    cases outside with
    | fails =>
      cases ran
      exact .stops (fun _ same => by cases same) rfl
    | succeeds | answers | nearDuplicate | memoryQuota =>
      cases ran
      exact .advances
  | completed | stopped => cases outside <;> cases ran

/-! ### The numbers -/

/-- Zero, or a number that a message of the log has been given. -/
def Given (handed : Text → List Int) (logId : Text) (seq : Int) : Prop := seq = 0 ∨ 1 ≤ seq ∧ seq ∈ handed logId

private theorem Given.mono {handed more : Text → List Int} {seq : Int} (given : Given handed logId seq) :
    Given (fun id => handed id ++ more id) logId seq :=
  given.imp_right fun known => ⟨known.1, List.mem_append_left _ known.2⟩

/-- The watermark and the passes know numbers that have been given. -/
structure Numbers (t : Tenant) (logId : Text) (handed : Text → List Int) (state : MemoryState κ) : Prop where
  numbered : NumberedAs handed state.store.chats
  inRange : InRange state.store.chats
  through : Given handed logId (state.store.memoryIngestSeq t logId)
  since : ∀ call since, (state.position call).stage = .reading since → Given handed logId since
  slices : ∀ call slice, (state.position call).stage.slice? = some slice → Given handed logId slice.throughSeq

/-- A message that is new has a number above all that were given. -/
theorem commit_new {handed : Text → List Int} {db : ChatDb} (numbered : NumberedAs handed db) (inRange : InRange db)
    (op : ChatOp) {m : ChatMessageRow} (mem : m ∈ (op.commit db).messages.rows) :
    m ∈ db.messages.rows ∨ ∀ seq, Given handed m.chatLogId seq → seq < m.seq := by
  have least := (inRange.step numbered (commit_step op)).least m mem
  have step : NumberStep db (op.commit db) := commit_step op
  cases step with
  | quiet logs messages => exact .inl (messages mem)
  | appends appended =>
    rcases List.mem_append.mp (appended.messages.subset mem) with old | new
    · exact .inl old
    · refine .inr ?_
      rintro seq (zero | ⟨-, given⟩)
      · omega
      · exact appended.later numbered ((appended.place new).1 ▸ given) new

theorem mem_messagesOf {db : ChatDb} {m : ChatMessageRow} :
    m ∈ db.messagesOf logId t.orgId ↔ m ∈ db.messages.rows ∧ m.chatLogId = logId ∧ m.orgId = t.orgId := by
  unfold messagesOf Table.filter
  rw [List.mem_filter, decide_eq_true_eq]

private theorem given_stored {handed : Text → List Int} {db : ChatDb} (numbered : NumberedAs handed db)
    (inRange : InRange db) {m : ChatMessageRow} (mem : m ∈ db.messagesOf logId t.orgId) : Given handed logId m.seq := by
  obtain ⟨stored, own, -⟩ := mem_messagesOf.mp mem
  exact .inr ⟨inRange.least m stored, own ▸ numbered.stored m stored⟩

private theorem given_int32 {handed : Text → List Int} {db : ChatDb} (numbered : NumberedAs handed db)
    (inRange : InRange db) {seq : Int} (given : Given handed logId seq) : int32 seq = seq := by
  rcases given with rfl | ⟨least, given⟩
  · rfl
  · obtain ⟨log, mem, same⟩ := numbered.known logId (List.ne_nil_of_mem given)
    have less := numbered.below log mem seq (same ▸ given)
    have most := inRange.most log mem
    exact int32_eq (by omega) (by omega)

/-! ### What a pass reads -/

theorem extractThrough_spec (since : Int) (msgs : List ChatMessageRow) :
    since ≤ extractThrough since msgs ∧
      (extractThrough since msgs = since ∨ ∃ m ∈ msgs, extractThrough since msgs = m.seq) := by
  induction msgs generalizing since with
  | nil => exact ⟨le_rfl, .inl rfl⟩
  | cons m rest ih =>
    obtain ⟨least, origin⟩ := ih (if since < m.seq then m.seq else since)
    have unfolds : extractThrough since (m :: rest) = extractThrough (if since < m.seq then m.seq else since) rest := rfl
    rw [unfolds]
    by_cases later : since < m.seq
    · rw [if_pos later] at least origin ⊢
      refine ⟨by omega, .inr ?_⟩
      rcases origin with same | ⟨other, mem, same⟩
      · exact ⟨m, List.mem_cons_self, same⟩
      · exact ⟨other, List.mem_cons_of_mem _ mem, same⟩
    · rw [if_neg later] at least origin ⊢
      refine ⟨least, origin.imp_right ?_⟩
      rintro ⟨other, mem, same⟩
      exact ⟨other, List.mem_cons_of_mem _ mem, same⟩

/-- The messages that are listed are the first ones after the watermark. -/
theorem mem_listed {db : ChatDb} {since limit : Int} {m last : ChatMessageRow} (mem : m ∈ db.messagesOf logId t.orgId)
    (after : since < m.seq) (listed : last ∈ db.listChatMessages logId t.orgId since limit) (upTo : m.seq ≤ last.seq) :
    m ∈ db.listChatMessages logId t.orgId since limit := by
  have lastMem := mem_listChatMessages listed
  unfold listChatMessages at listed ⊢
  have ordered : (((db.messagesOf logId t.orgId).filter fun row => decide (since < row.seq)).mergeSort
      fun one two => decide (one.seq ≤ two.seq)).Pairwise fun one two => decide (one.seq ≤ two.seq) = true := by
    refine List.pairwise_mergeSort ?_ ?_ _
    · intro one two three first second
      simp only [decide_eq_true_eq] at *
      omega
    · intro one two
      simp only [Bool.or_eq_true, decide_eq_true_eq]
      omega
  have among : m ∈ ((db.messagesOf logId t.orgId).filter fun row => decide (since < row.seq)).mergeSort
      fun one two => decide (one.seq ≤ two.seq) :=
    List.mem_mergeSort.mpr (List.mem_filter.mpr ⟨mem, decide_eq_true after⟩)
  generalize ((db.messagesOf logId t.orgId).filter fun row => decide (since < row.seq)).mergeSort
    (fun one two => decide (one.seq ≤ two.seq)) = sorted at *
  rw [← List.take_append_drop limit.toNat sorted] at among ordered
  rcases List.mem_append.mp among with taken | dropped
  · exact taken
  · have least := of_decide_eq_true ((List.pairwise_append.mp ordered).2.2 last listed m dropped)
    obtain ⟨stored, own, -⟩ := mem_messagesOf.mp mem
    obtain ⟨lastStored, lastOwn, -⟩ := mem_messagesOf.mp lastMem
    have same : m = last := by
      refine db.messages.eq_of_key stored lastStored ?_
      exact Prod.ext (own.trans lastOwn.symm) (by simp only [ChatMessageRow.place]; omega)
    exact same ▸ listed

/-- What a pass read of the log up to where it goes is in what it sends. -/
theorem slice_covers {db : ChatDb} {since : Int} {m : ChatMessageRow} (mem : m ∈ db.messagesOf logId t.orgId)
    (extracts : extractable m = true) (after : since < m.seq)
    (whole : SendsWhole (db.listChatMessages logId t.orgId since 500))
    (upTo : m.seq ≤ extractThrough since (db.listChatMessages logId t.orgId since 500)) :
    Utf8.encode m.content <:+: extractInput (extractText (db.listChatMessages logId t.orgId since 500)) := by
  obtain ⟨-, same | ⟨last, listed, same⟩⟩ := extractThrough_spec since (db.listChatMessages logId t.orgId since 500)
  · omega
  · exact sent_whole whole (mem_listed mem after listed (by omega)) extracts

/-! ### One step -/

/-- A message that is in the log, or was when a pass read it. -/
def Noticed (t : Tenant) (logId : Text) (state : MemoryState κ) (m : ChatMessageRow) : Prop :=
  m ∈ state.store.chats.messagesOf logId t.orgId ∨ ∃ call, m ∈ (state.position call).stage.log

/-- Below the watermark every message has been distilled; below where a pass goes, it
has been or is in what the pass sends. -/
structure Watermarked (t : Tenant) (logId : Text) (state : MemoryState κ) : Prop where
  since : ∀ call since, (state.position call).stage = .reading since → since ≤ state.store.memoryIngestSeq t logId
  kept : ∀ call, ∀ m ∈ (state.position call).stage.log, extractable m = true →
    m ∈ state.store.chats.messagesOf logId t.orgId ∨ Distilled state m
  below : ∀ m, extractable m = true → Noticed t logId state m → m.seq ≤ state.store.memoryIngestSeq t logId →
    Distilled state m
  inflight : ∀ call slice, (state.position call).stage.slice? = some slice → ∀ m, extractable m = true →
    Noticed t logId state m → m.seq ≤ slice.throughSeq → Distilled state m ∨ Utf8.encode m.content <:+: slice.transcript

theorem memory_cases (state : MemoryState κ) (act : Act κ Outside) :
    perform (memoryRequests t logId) state act = state ∨
      (∃ op, state.position act.1 = .change op ∧ perform (memoryRequests t logId) state act =
        ⟨{ state.store with chats := op.commit state.store.chats }, Function.update state.position act.1 .changed⟩) ∨
      ∃ stage moved stored, state.position act.1 = .pass stage ∧ PassStep t logId state.store stage moved stored ∧
        perform (memoryRequests t logId) state act = ⟨stored, Function.update state.position act.1 (.pass moved)⟩ := by
  cases here : state.position act.1 with
  | change op =>
    refine .inr (.inl ⟨op, rfl, ?_⟩)
    apply perform_some
    rw [here]
    rfl
  | changed =>
    refine .inl ?_
    apply perform_none
    rw [here]
    rfl
  | pass stage =>
    cases ran : extractNext t logId act.2 stage state.store with
    | none =>
      refine .inl ?_
      apply perform_none
      rw [here, memoryRequests, ran]
      rfl
    | some after =>
      refine .inr (.inr ⟨stage, after.1, after.2, rfl, extract_step ran, ?_⟩)
      apply perform_some
      rw [here, memoryRequests, ran]
      rfl

section Step

variable {state : MemoryState κ} {call : κ} {handed : Text → List Int}

/-- A change of the logs moves no pass. -/
private theorem stage_changed {op : ChatOp} (here : state.position call = .change op) (other : κ) :
    (Function.update state.position call .changed other).stage = (state.position other).stage := by
  by_cases own : other = call
  · subst own
    rw [Function.update_self, here]
    rfl
  · rw [Function.update_of_ne own]

theorem numbers_change (numbers : Numbers t logId handed state) {op : ChatOp} (here : state.position call = .change op) :
    Numbers t logId (fun id => handed id ++ op.handsOut state.store.chats id)
      ⟨{ state.store with chats := op.commit state.store.chats }, Function.update state.position call .changed⟩ := by
  refine ⟨numbers.numbered.step op, numbers.inRange.step numbers.numbered (commit_step op), numbers.through.mono, ?_, ?_⟩
  · intro other since reading
    rw [stage_changed here] at reading
    exact (numbers.since other since reading).mono
  · intro other slice found
    rw [stage_changed here] at found
    exact (numbers.slices other slice found).mono

theorem watermarked_change (numbers : Numbers t logId handed state) (kept : Watermarked t logId state) {op : ChatOp}
    (here : state.position call = .change op)
    (keeps : ∀ m ∈ state.store.chats.messagesOf logId t.orgId, extractable m = true →
      m ∉ (op.commit state.store.chats).messagesOf logId t.orgId →
      state.store.memoryIngestSeq t logId < m.seq → ∀ call, m ∉ (state.position call).stage.log) :
    Watermarked t logId
      ⟨{ state.store with chats := op.commit state.store.chats }, Function.update state.position call .changed⟩ := by
  have distilled {m : ChatMessageRow} (before : Distilled state m) : Distilled
      ⟨{ state.store with chats := op.commit state.store.chats }, Function.update state.position call .changed⟩ m := by
    obtain ⟨other, slice, completed, inside⟩ := before
    exact ⟨other, slice, (stage_changed here other).symm ▸ completed, inside⟩
  have known {m : ChatMessageRow} {seq : Int} (given : Given handed logId seq) (upTo : m.seq ≤ seq)
      (after : Noticed t logId
        ⟨{ state.store with chats := op.commit state.store.chats }, Function.update state.position call .changed⟩ m) :
      Noticed t logId state m := by
    rcases after with mem | ⟨other, mem⟩
    · obtain ⟨stored, own, org⟩ := mem_messagesOf.mp mem
      rcases commit_new numbers.numbered numbers.inRange op stored with old | new
      · exact .inl (mem_messagesOf.mpr ⟨old, own, org⟩)
      · exact absurd upTo (not_le.mpr (new seq (own ▸ given)))
    · exact .inr ⟨other, stage_changed here other ▸ mem⟩
  refine ⟨?_, ?_, ?_, ?_⟩
  · intro other since reading
    rw [stage_changed here] at reading
    exact kept.since other since reading
  · intro other m mem extracts
    rw [stage_changed here] at mem
    rcases kept.kept other m mem extracts with stored | done
    · by_cases stays : m ∈ (op.commit state.store.chats).messagesOf logId t.orgId
      · exact .inl stays
      · by_cases upTo : m.seq ≤ state.store.memoryIngestSeq t logId
        · exact .inr (distilled (kept.below m extracts (.inl stored) upTo))
        · exact absurd mem (keeps m stored extracts stays (not_le.mp upTo) other)
    · exact .inr (distilled done)
  · intro m extracts after upTo
    exact distilled (kept.below m extracts (known numbers.through upTo after) upTo)
  · intro other slice found m extracts after upTo
    rw [stage_changed here] at found
    refine (kept.inflight other slice found m extracts (known (numbers.slices other slice found) upTo after) upTo).imp_left ?_
    exact distilled

/-- What every step of a pass does. -/
structure PassFrame (t : Tenant) (logId : Text) (db : MemoryDb) (stage moved : ExtractStage) (stored : MemoryDb) : Prop where
  chats : stored.chats = db.chats
  through : db.memoryIngestSeq t logId ≤ stored.memoryIngestSeq t logId
  running : stage.completed? = none
  log : ∀ m ∈ moved.log, m ∈ stage.log ∨ m ∈ db.chats.messagesOf logId t.orgId

theorem ingest_advance (db : MemoryDb) (seq : Int) :
    (db.advanceMemoryIngest t logId seq).memoryIngestSeq t logId = max (db.memoryIngestSeq t logId) seq := by
  unfold MemoryDb.memoryIngestSeq MemoryDb.advanceMemoryIngest
  exact Function.update_self _ _ _

theorem pass_frame {db stored : MemoryDb} {stage moved : ExtractStage} (step : PassStep t logId db stage moved stored) :
    PassFrame t logId db stage moved stored := by
  cases step with
  | begins | watermark => exact ⟨rfl, le_rfl, rfl, fun m mem => by cases mem⟩
  | unread => exact ⟨rfl, le_rfl, rfl, fun m mem => .inr mem⟩
  | reads listed some slice =>
    refine ⟨rfl, le_rfl, rfl, fun m mem => .inr ?_⟩
    rw [(log_of_slice slice).1] at mem
    exact mem
  | stops unread running => exact ⟨rfl, le_rfl, running, fun m mem => .inl mem⟩
  | moves before after =>
    refine ⟨rfl, le_rfl, (log_of_slice before).2, fun m mem => .inl ?_⟩
    rw [(log_of_slice after).1] at mem
    rw [(log_of_slice before).1]
    exact mem
  | @advances slice =>
    refine ⟨rfl, ?_, rfl, fun m mem => .inl mem⟩
    rw [ingest_advance]
    exact le_max_left _ _

section Pass

variable {stage moved : ExtractStage} {stored : MemoryDb} (here : state.position call = .pass stage)
  (step : PassStep t logId state.store stage moved stored)

include here step in
private theorem distilled_pass {m : ChatMessageRow} (before : Distilled state m) :
    Distilled ⟨stored, Function.update state.position call (.pass moved)⟩ m := by
  obtain ⟨other, slice, completed, inside⟩ := before
  have differ : other ≠ call := by
    rintro rfl
    have running := (pass_frame step).running
    rw [here] at completed
    rw [MemoryCall.stage, running] at completed
    cases completed
  refine ⟨other, slice, ?_, inside⟩
  simp only [Function.update_of_ne differ]
  exact completed

include here step in
private theorem noticed_pass {m : ChatMessageRow}
    (after : Noticed t logId ⟨stored, Function.update state.position call (.pass moved)⟩ m) :
    Noticed t logId state m := by
  have frame := pass_frame step
  rcases after with mem | ⟨other, mem⟩
  · rw [frame.chats] at mem
    exact .inl mem
  · by_cases own : other = call
    · subst own
      simp only [Function.update_self] at mem
      rcases frame.log m mem with old | new
      · refine .inr ⟨other, ?_⟩
        rw [here]
        exact old
      · exact .inl new
    · simp only [Function.update_of_ne own] at mem
      exact .inr ⟨other, mem⟩

include here step in
theorem numbers_pass (numbers : Numbers t logId handed state) :
    Numbers t logId handed ⟨stored, Function.update state.position call (.pass moved)⟩ := by
  have frame := pass_frame step
  have since (from_ : Int) (reading : stage = .reading from_) : Given handed logId from_ := by
    refine numbers.since call from_ ?_
    rw [here]
    exact reading
  have slices (slice : ExtractSlice) (found : stage.slice? = some slice) : Given handed logId slice.throughSeq := by
    refine numbers.slices call slice ?_
    rw [here]
    exact found
  refine ⟨frame.chats ▸ numbers.numbered, frame.chats ▸ numbers.inRange, ?_, ?_, ?_⟩
  · cases step with
    | begins | watermark | unread | reads | stops | moves => exact numbers.through
    | @advances slice =>
      rw [ingest_advance]
      rcases max_choice (state.store.memoryIngestSeq t logId) slice.throughSeq with same | same
      · rw [same]
        exact numbers.through
      · rw [same]
        exact slices slice rfl
  · intro other seq reading
    by_cases own : other = call
    · subst own
      simp only [Function.update_self, MemoryCall.stage] at reading
      cases step with
      | begins | unread | stops | advances => cases reading
      | watermark =>
        cases reading
        exact numbers.through
      | reads listed some slice =>
        rw [reading] at slice
        cases slice
      | moves before after =>
        rw [reading] at after
        cases after
    · simp only [Function.update_of_ne own] at reading
      exact numbers.since other seq reading
  · intro other slice found
    by_cases own : other = call
    · subst own
      simp only [Function.update_self, MemoryCall.stage] at found
      cases step with
      | begins | watermark | unread | stops | advances => cases found
      | @reads from_ _ msgs listed some sliced =>
        rw [sliced] at found
        cases found
        simp only
        rcases (extractThrough_spec from_ msgs).2 with same | ⟨m, mem, same⟩
        · rw [same]
          exact since from_ rfl
        · rw [same]
          exact given_stored numbers.numbered numbers.inRange (mem_listChatMessages (listed ▸ mem))
      | moves before after =>
        rw [after] at found
        cases found
        exact slices _ before
    · simp only [Function.update_of_ne own] at found
      exact numbers.slices other slice found

include here step in
theorem watermarked_pass (numbers : Numbers t logId handed state) (kept : Watermarked t logId state)
    (whole : ∀ since, stage = .reading since →
      SendsWhole (state.store.chats.listChatMessages logId t.orgId (int32 since) 500)) :
    Watermarked t logId ⟨stored, Function.update state.position call (.pass moved)⟩ := by
  have frame := pass_frame step
  have distilled {m : ChatMessageRow} (before : Distilled state m) := distilled_pass here step before
  have noticed {m : ChatMessageRow}
      (after : Noticed t logId ⟨stored, Function.update state.position call (.pass moved)⟩ m) := noticed_pass here step after
  refine ⟨?_, ?_, ?_, ?_⟩
  · intro other seq reading
    by_cases own : other = call
    · subst own
      simp only [Function.update_self, MemoryCall.stage] at reading
      cases step with
      | begins | unread | stops | advances => cases reading
      | watermark =>
        cases reading
        exact le_rfl
      | reads listed some slice =>
        rw [reading] at slice
        cases slice
      | moves before after =>
        rw [reading] at after
        cases after
    · simp only [Function.update_of_ne own] at reading
      exact (kept.since other seq reading).trans frame.through
  · intro other m mem extracts
    simp only [frame.chats]
    by_cases own : other = call
    · subst own
      simp only [Function.update_self] at mem
      rcases frame.log m mem with old | new
      · refine (kept.kept other m ?_ extracts).imp_right distilled
        rw [here]
        exact old
      · exact .inl new
    · simp only [Function.update_of_ne own] at mem
      exact (kept.kept other m mem extracts).imp_right distilled
  · intro m extracts after upTo
    cases step with
    | begins | watermark | unread | reads | stops | moves => exact distilled (kept.below m extracts (noticed after) upTo)
    | @advances slice =>
      simp only [ingest_advance] at upTo
      rcases le_max_iff.mp upTo with before | mine
      · exact distilled (kept.below m extracts (noticed after) before)
      · rcases kept.inflight call slice (by rw [here]; rfl) m extracts (noticed after) mine with done | inside
        · exact distilled done
        · refine ⟨call, slice, ?_, inside⟩
          simp only [Function.update_self]
          rfl
  · intro other slice found m extracts after upTo
    by_cases own : other = call
    · subst own
      simp only [Function.update_self, MemoryCall.stage] at found
      cases step with
      | begins | watermark | unread | stops | advances => cases found
      | @reads since _ msgs listed some sliced =>
        rw [sliced] at found
        cases found
        have small : int32 since = since :=
          given_int32 numbers.numbered numbers.inRange (numbers.since other since (by rw [here]; rfl))
        have fits := whole since rfl
        rw [small] at listed fits
        subst listed
        have stored : m ∈ state.store.chats.messagesOf logId t.orgId ∨ Distilled state m := by
          rcases noticed after with stored | ⟨third, mem⟩
          · exact .inl stored
          · exact kept.kept third m mem extracts
        rcases stored with stored | done
        · by_cases before : m.seq ≤ since
          · have below := before.trans (kept.since other since (by rw [here]; rfl))
            exact .inl (distilled (kept.below m extracts (.inl stored) below))
          · exact .inr (slice_covers stored extracts (not_le.mp before) fits upTo)
        · exact .inl (distilled done)
      | moves before moves =>
        rw [moves] at found
        cases found
        refine (kept.inflight other _ ?_ m extracts (noticed after) upTo).imp_left distilled
        rw [here]
        exact before
    · simp only [Function.update_of_ne own] at found
      exact (kept.inflight other slice found m extracts (noticed after) upTo).imp_left distilled

end Pass

end Step

/-! ### Runs -/

def MemoryCall.begin : Option ChatOp → MemoryCall
  | some op => .change op
  | none => .pass .starting

/-- An organization without chat logs, and the requests and passes to come. -/
def noLogs (planTiers : Text → Option Text) (sites : Table ChatSite.id) (requests : κ → Option ChatOp) :
    MemoryState κ :=
  ⟨⟨ChatDb.start planTiers sites, fun _ => 0⟩, fun call => .begin (requests call)⟩

/-- The watermark is sound in a state: every message that was in the log when a pass
read it and is not past the watermark was sent in full by a pass that completed. -/
def WatermarkSound (t : Tenant) (logId : Text) (state : MemoryState κ) : Prop :=
  ∀ call, ∀ m ∈ (state.position call).stage.log, extractable m = true →
    m.seq ≤ state.store.memoryIngestSeq t logId → Distilled state m

theorem ingest_step (state : MemoryState κ) (act : Act κ Outside) :
    state.store.memoryIngestSeq t logId ≤ (perform (memoryRequests t logId) state act).store.memoryIngestSeq t logId := by
  rcases memory_cases state act with same | ⟨op, -, same⟩ | ⟨stage, moved, stored, -, step, same⟩
  · rw [same]
  · rw [same]
    exact le_rfl
  · rw [same]
    exact (pass_frame step).through

theorem ingest_run (state : MemoryState κ) (schedule : List (Act κ Outside)) :
    state.store.memoryIngestSeq t logId ≤
      (performAll (memoryRequests t logId) schedule state).store.memoryIngestSeq t logId :=
  keeps_always (fun later => state.store.memoryIngestSeq t logId ≤ later.store.memoryIngestSeq t logId)
    (fun later act least => least.trans (ingest_step later act)) schedule le_rfl

theorem watermarked_step (state : MemoryState κ) (act : Act κ Outside)
    (kept : (∃ handed, Numbers t logId handed state) ∧ Watermarked t logId state) (fits : Extracts t logId state act) :
    (∃ handed, Numbers t logId handed (perform (memoryRequests t logId) state act)) ∧
      Watermarked t logId (perform (memoryRequests t logId) state act) := by
  obtain ⟨⟨handed, numbers⟩, kept⟩ := kept
  rcases memory_cases state act with same | ⟨op, here, same⟩ | ⟨stage, moved, stored, here, step, same⟩
  · rw [same]
    exact ⟨⟨handed, numbers⟩, kept⟩
  · rw [same]
    exact ⟨⟨_, numbers_change numbers here⟩, watermarked_change numbers kept here (fits.keeps op here)⟩
  · rw [same]
    refine ⟨⟨handed, numbers_pass here step numbers⟩, watermarked_pass here step numbers kept ?_⟩
    intro since reading
    exact fits.whole since (by rw [here, reading])

omit [DecidableEq κ] in
private theorem stage_start {planTiers : Text → Option Text} {sites : Table ChatSite.id} {requests : κ → Option ChatOp}
    (call : κ) : ((noLogs planTiers sites requests).position call).stage = .starting := by
  simp only [noLogs]
  cases requests call <;> rfl

omit [DecidableEq κ] in
theorem watermarked_start (planTiers : Text → Option Text) (sites : Table ChatSite.id) (requests : κ → Option ChatOp) :
    (∃ handed, Numbers t logId handed (noLogs planTiers sites requests)) ∧
      Watermarked t logId (noLogs planTiers sites requests) := by
  refine ⟨⟨fun _ => [], start_numbered planTiers sites, inRange_start planTiers sites, .inl rfl, ?_, ?_⟩, ?_, ?_, ?_, ?_⟩
  · intro call since reading
    rw [stage_start] at reading
    cases reading
  · intro call slice found
    rw [stage_start] at found
    cases found
  · intro call since reading
    rw [stage_start] at reading
    cases reading
  · intro call m mem
    rw [stage_start] at mem
    cases mem
  · rintro m extracts (mem | ⟨call, mem⟩) upTo
    · cases (mem_messagesOf.mp mem).1
    · rw [stage_start] at mem
      cases mem
  · intro call slice found
    rw [stage_start] at found
    cases found

/-- The watermark never goes back, and it is sound in every state of a run whose
passes send what they read whole. -/
theorem watermark_sound (planTiers : Text → Option Text) (sites : Table ChatSite.id) (requests : κ → Option ChatOp)
    (schedule : List (Act κ Outside))
    (extracts : Meets (memoryRequests t logId) (Extracts t logId) schedule (noLogs planTiers sites requests)) :
    (∀ earlier later, schedule = earlier ++ later →
      (performAll (memoryRequests t logId) earlier (noLogs planTiers sites requests)).store.memoryIngestSeq t logId ≤
        (performAll (memoryRequests t logId) schedule (noLogs planTiers sites requests)).store.memoryIngestSeq t logId) ∧
      WatermarkSound t logId (performAll (memoryRequests t logId) schedule (noLogs planTiers sites requests)) := by
  constructor
  · rintro earlier later rfl
    rw [performAll_append]
    exact ingest_run _ later
  · have kept := (keeps (fun state => (∃ handed, Numbers t logId handed state) ∧ Watermarked t logId state)
      watermarked_step (watermarked_start planTiers sites requests) extracts).2
    intro call m mem extractable upTo
    exact kept.below m extractable (.inr ⟨call, mem⟩) upTo

/-! ### A long message -/

theorem extractInput_length (text : Text) : (extractInput text).length ≤ maxExtractInput := by
  simp only [extractInput]
  split
  · rw [List.length_drop]
    omega
  · omega

private def reader : Tenant := ⟨"org".toList, "ada".toList⟩
private def talk : Text := "talk".toList

private def uttered (content : Text) : ChatBatch :=
  ⟨[⟨"chat".toList, "user".toList, content, none⟩], Nat.one_lt_two_pow (by decide)⟩

private def oneTalk (content : Text) : Fin 3 → Option ChatOp
  | 0 => some (.createChatLog reader talk [] [] none)
  | 1 => some (.appendChatMessages reader talk (uttered content) 0)
  | 2 => none

/-- The pass is the only call that has not finished. -/
private def passing (content : Text) : Fin 3 → MemoryCall :=
  Function.update (Function.update (fun call => .begin (oneTalk content call)) 0 .changed) 1 .changed

private theorem passing_starts (content : Text) :
    passing content = Function.update (passing content) 2 (.pass .starting) := by
  rw [Function.eq_update_self_iff]
  rfl

private def business : Text → Option Text := fun _ => some Cloud.tierBusiness

private def created : ChatDb := (ChatOp.createChatLog reader talk [] [] none).commit (.start business .empty)

private def talked (content : Text) : ChatDb := (ChatOp.appendChatMessages reader talk (uttered content) 0).commit created

private theorem created_log : ∃ log ∈ created.logs.rows, log.id = talk ∧ log.orgId = reader.orgId ∧ log.nextSeq = 1 :=
  ⟨⟨talk, reader.orgId, none, [], "other".toList, true, 1, reader.userId⟩, by decide +kernel, rfl, rfl, rfl⟩

private theorem talked_ok (content : Text) :
    ∃ result, created.appendChatMessages reader talk (uttered content) 0 = .ok (result, talked content) := by
  have numbered : NumberedAs _ created := (start_numbered business .empty).step (.createChatLog reader talk [] [] none)
  obtain ⟨log, mem, same, owned, nextSeq⟩ := created_log
  have role : ∀ m ∈ (uttered content).messages, ["user".toList, "assistant".toList].contains m.role = true := by
    intro m mem
    rw [List.mem_singleton.mp mem]
    rfl
  have kind : ∀ m ∈ (uttered content).messages, ["chat".toList, "action".toList].contains m.kind = true := by
    intro m mem
    rw [List.mem_singleton.mp mem]
    rfl
  have free : created.requireRoom reader.orgId log.id (uttered content).messages.length = .ok () := by
    rw [same]
    rfl
  have room : log.nextSeq + ((uttered content).messages.length : Int) < 2 ^ 31 := by
    simp only [nextSeq, uttered, List.length_singleton]
    omega
  have succeeds : ∃ result after, created.appendChatMessages reader log.id (uttered content) 0 = .ok (result, after) :=
    append_succeeds numbered mem owned free (List.cons_ne_nil _ _) role kind room
  rw [same] at succeeds
  obtain ⟨result, after, ok⟩ := succeeds
  refine ⟨result, ?_⟩
  have committed : talked content = after := by
    unfold talked ChatOp.commit
    simp only [ChatOp.transact, ok, bind, Except.bind, pure, Except.pure]
  rw [committed, ok]

/-- The log has its one message. -/
private theorem talked_log (content : Text) :
    (∃ row, (talked content).messagesOf talk reader.orgId = [row] ∧ row.seq = 1 ∧ row.kind = "chat".toList ∧
      row.content = content) ∧ ∃ log, (talked content).getChatLogTx reader talk = .ok log := by
  obtain ⟨result, ok⟩ := talked_ok content
  have appended := append_ok ok
  obtain ⟨log, mem, same, owned, nextSeq⟩ := created_log
  obtain ⟨found, foundMem, foundSame, -, -, versionId, now, rows⟩ := appended.log
  have only : found = log := created.logs.eq_of_key foundMem mem (foundSame.trans same.symm)
  subst only
  constructor
  · have none : created.messages.rows = [] := by decide +kernel
    obtain ⟨whole, all, kept⟩ := appended.kept
    have tier : Cloud.retentionWindow (created.getPlanTier reader.orgId) = .none := by decide +kernel
    rw [tier] at kept
    rw [none, List.nil_append, rows, nextSeq] at all
    refine ⟨⟨reader.orgId, talk, 1, versionId, reader.userId, "user".toList, "chat".toList, content, .none, now⟩, ?_, rfl,
      rfl, rfl⟩
    unfold messagesOf Table.filter
    rw [kept.1, all]
    rfl
  · have present : advance (int32 (uttered content).messages.length) found ∈ (talked content).logs.rows := by
      rw [appended.logs]
      exact List.mem_map.mpr ⟨found, mem, if_pos (decide_eq_true ⟨same, owned⟩)⟩
    have got : (talked content).getChatLog talk reader.orgId = some (advance (int32 (uttered content).messages.length) found) :=
      Option.filter_eq_some_iff.mpr ⟨Table.get?_eq_some.mpr ⟨present, same⟩, decide_eq_true owned⟩
    refine ⟨advance (int32 (uttered content).messages.length) found, ?_⟩
    unfold getChatLogTx
    exact bind_ok.mpr ⟨_, orFail_ok.mpr got, bind_ok.mpr ⟨(), require_ok.mpr owned, rfl⟩⟩

private theorem change_moves {db : MemoryDb} {position : Fin 3 → MemoryCall} {call : Fin 3} {op : ChatOp}
    (here : position call = .change op) :
    perform (memoryRequests reader talk) ⟨db, position⟩ (call, .succeeds) =
      ⟨⟨op.commit db.chats, db.throughSeq⟩, Function.update position call .changed⟩ := by
  apply perform_some
  simp only [here]
  rfl

private theorem pass_moves {db stored : MemoryDb} {position : Fin 3 → MemoryCall} {outside : Outside}
    {stage moved : ExtractStage} (ran : extractNext reader talk outside stage db = some (moved, stored)) :
    perform (memoryRequests reader talk) ⟨db, Function.update position 2 (.pass stage)⟩ (2, outside) =
      ⟨stored, Function.update position 2 (.pass moved)⟩ := by
  have steps : memoryRequests reader talk outside
      ((Function.update position 2 (.pass stage) : Fin 3 → MemoryCall) 2) db = some (.pass moved, stored) := by
    rw [Function.update_self, memoryRequests, ran]
    rfl
  have result : perform (memoryRequests reader talk) ⟨db, Function.update position 2 (.pass stage)⟩ (2, outside) =
      ⟨stored, Function.update (Function.update position 2 (.pass stage)) 2 (.pass moved)⟩ := perform_some steps
  rw [result, Function.update_idem]

private theorem pass_done {db : MemoryDb} {position : Fin 3 → MemoryCall} {outside : Outside} {slice : ExtractSlice} :
    perform (memoryRequests reader talk) ⟨db, Function.update position 2 (.pass (.completed slice))⟩ (2, outside) =
      ⟨db, Function.update position 2 (.pass (.completed slice))⟩ := by
  apply perform_none
  simp only [Function.update_self]
  cases outside <;> rfl

/-- A pass over the log completes, and knows the whole log. -/
private theorem pass_completes (content : Text) :
    ∃ slice row, performAll (memoryRequests reader talk)
        [(2, .succeeds), (2, .succeeds), (2, .succeeds), (2, .answers []), (2, .succeeds)]
        ⟨⟨talked content, fun _ => 0⟩, passing content⟩ =
      ⟨(⟨talked content, fun _ => 0⟩ : MemoryDb).advanceMemoryIngest reader talk slice.throughSeq,
        Function.update (passing content) 2 (.pass (.completed slice))⟩ ∧
      row ∈ slice.log ∧ row.kind = "chat".toList ∧ row.content = content ∧ row.seq = 1 ∧ slice.throughSeq = 1 ∧
        slice.transcript.length ≤ maxExtractInput := by
  obtain ⟨⟨row, only, seq, kind, said⟩, log, found⟩ := talked_log content
  have listed : (talked content).listChatMessages talk reader.orgId (int32 0) 500 = [row] := by
    unfold listChatMessages
    rw [only]
    have after : decide (int32 0 < row.seq) = true := by rw [seq]; decide
    simp only [List.filter_cons, after, if_true, List.filter_nil, List.mergeSort_singleton]
    rfl
  refine ⟨⟨[row], extractInput (extractText [row]), extractThrough 0 [row]⟩, row, ?_, List.mem_singleton_self row, kind,
    said, seq, ?_, extractInput_length _⟩
  · have read : readSlice reader talk 0 ⟨talked content, fun _ => 0⟩ =
        if extractInput (extractText [row]) = [] then
          .advancing ⟨[row], extractInput (extractText [row]), extractThrough 0 [row]⟩
        else .sending ⟨[row], extractInput (extractText [row]), extractThrough 0 [row]⟩ := by
      simp only [readSlice, found, listed, only, if_neg (List.cons_ne_nil row [])]
    have third : extractNext reader talk .succeeds (.reading (MemoryDb.memoryIngestSeq ⟨talked content, fun _ => 0⟩ reader talk))
        ⟨talked content, fun _ => 0⟩ = some (readSlice reader talk 0 ⟨talked content, fun _ => 0⟩, ⟨talked content, fun _ => 0⟩) := rfl
    rw [passing_starts, performAll_cons, pass_moves rfl, performAll_cons, pass_moves rfl, performAll_cons, pass_moves third, read,
      Function.update_idem]
    split
    · rw [performAll_cons, pass_moves rfl, performAll_cons, pass_done, performAll_nil]
    · rw [performAll_cons, pass_moves rfl, performAll_cons, pass_moves rfl, performAll_nil]
  · simp [extractThrough, seq]

private theorem long_extractable {content : Text} {row : ChatMessageRow} (kind : row.kind = "chat".toList)
    (said : row.content = 'a' :: content ++ ['a']) : extractable row = true := by
  have visible : Text.isWhite 'a' = false := by decide
  have inside := Text.infix_trimSpace visible visible [] content
  refine decide_eq_true ⟨kind, fun blank => ?_⟩
  rw [said] at blank
  rw [List.nil_append, blank] at inside
  cases List.infix_nil.mp inside

theorem length_le_encode (text : Text) : text.length ≤ (Utf8.encode text).length := by
  induction text with
  | nil => exact le_rfl
  | cons c rest ih =>
    have some := List.length_pos_iff.mpr (Utf8.encodeChar_ne_nil c)
    rw [Utf8.encode_cons, List.length_append, List.length_cons]
    omega

/-- The log is created, a message of 24001 letters is appended, and a pass runs. -/
private def longTalk : List (Act (Fin 3) Outside) :=
  [(0, .succeeds), (1, .succeeds), (2, .succeeds), (2, .succeeds), (2, .succeeds), (2, .answers []), (2, .succeeds)]

theorem long_message_lost :
    ¬ WatermarkSound reader talk (performAll (memoryRequests reader talk) longTalk
      (noLogs business .empty (oneTalk ('a' :: List.replicate 23999 'a' ++ ['a'])))) := by
  have size : ('a' :: List.replicate 23999 'a' ++ ['a']).length = 24001 := by
    rw [List.length_append, List.length_cons, List.length_replicate, List.length_singleton]
  generalize List.replicate 23999 'a' = content at size ⊢
  generalize long : 'a' :: content ++ ['a'] = text at size
  obtain ⟨slice, row, ran, mem, kind, said, seq, through, short⟩ := pass_completes text
  intro sound
  rw [longTalk, noLogs, performAll_cons, change_moves rfl, performAll_cons, change_moves rfl, ← created, ← talked,
    ← passing, ran] at sound
  obtain ⟨call, other, completed, inside⟩ := sound 2 row mem (long_extractable kind (said.trans long.symm)) (by
    rw [ingest_advance, seq, through]
    exact le_max_right _ _)
  have one : other = slice := by
    fin_cases call
    · cases completed
    · cases completed
    · cases completed
      rfl
  have most := inside.length_le
  have least := length_le_encode text
  rw [said, one] at most
  unfold maxExtractInput at short
  omega

private theorem extracts_change {db : MemoryDb} {position : Fin 3 → MemoryCall} {call : Fin 3} {op : ChatOp}
    (here : position call = .change op) (unread : ∀ call, (position call).stage.log = []) :
    Extracts reader talk ⟨db, position⟩ (call, .succeeds) := by
  constructor
  · intro since reading
    simp only [here] at reading
    cases reading
  · intro other same m stored extracts gone later third mem
    rw [unread] at mem
    cases mem

private theorem extracts_pass {db : MemoryDb} {position : Fin 3 → MemoryCall} {outside : Outside} {stage : ExtractStage}
    (whole : ∀ since, stage = .reading since →
      SendsWhole (db.chats.listChatMessages talk reader.orgId (int32 since) 500)) :
    Extracts reader talk ⟨db, Function.update position 2 (.pass stage)⟩ (2, outside) := by
  constructor
  · intro since reading
    simp only [Function.update_self, MemoryCall.pass.injEq] at reading
    exact whole since reading
  · intro op change
    simp only [Function.update_self] at change
    cases change

private def greeting : Text := "hi".toList

private def greeted : ExtractSlice where
  log := [⟨reader.orgId, talk, 1, none, reader.userId, "user".toList, "chat".toList, greeting, none, 0⟩]
  transcript := Utf8.encode "user: hi".toList
  throughSeq := 1

private theorem greeting_whole : SendsWhole ((talked greeting).listChatMessages talk reader.orgId (int32 0) 500) := by
  have listed : (talked greeting).listChatMessages talk reader.orgId (int32 0) 500 = greeted.log := by decide +kernel
  rw [listed]
  constructor
  · decide +kernel
  · intro m last c final
    cases last
    cases final
    decide

theorem watermark_sound_greeting :
    WatermarkSound reader talk (performAll (memoryRequests reader talk) longTalk
      (noLogs business .empty (oneTalk greeting))) := by
  refine (watermark_sound business .empty (oneTalk greeting) longTalk ?_).2
  have read : extractNext reader talk .succeeds (.reading 0) ⟨talked greeting, fun _ => 0⟩ =
      some (.sending greeted, ⟨talked greeting, fun _ => 0⟩) := by
    have slice : readSlice reader talk 0 ⟨talked greeting, fun _ => 0⟩ = .sending greeted := by decide +kernel
    rw [extractNext, slice]
    all_goals simp
  rw [longTalk, noLogs]
  refine ⟨extracts_change rfl ?_, ?_⟩
  · decide
  have first : perform (memoryRequests reader talk) ⟨⟨.start business .empty, fun _ => 0⟩,
      fun call => .begin (oneTalk greeting call)⟩ (0, .succeeds) =
      ⟨⟨created, fun _ => 0⟩, Function.update (fun call => .begin (oneTalk greeting call)) 0 .changed⟩ := change_moves rfl
  have second : perform (memoryRequests reader talk) ⟨⟨created, fun _ => 0⟩,
      Function.update (fun call => .begin (oneTalk greeting call)) 0 .changed⟩ (1, .succeeds) =
      ⟨⟨talked greeting, fun _ => 0⟩, passing greeting⟩ := change_moves rfl
  have watermark : extractNext reader talk .succeeds .enabled ⟨talked greeting, fun _ => 0⟩ =
      some (.reading 0, ⟨talked greeting, fun _ => 0⟩) := rfl
  rw [first]
  refine ⟨extracts_change rfl ?_, ?_⟩
  · decide
  rw [second, passing_starts]
  refine ⟨extracts_pass (fun since same => by cases same), ?_⟩
  rw [pass_moves rfl]
  refine ⟨extracts_pass (fun since same => by cases same), ?_⟩
  rw [pass_moves watermark]
  refine ⟨extracts_pass ?_, ?_⟩
  · intro since same
    cases same
    exact greeting_whole
  rw [pass_moves read]
  refine ⟨extracts_pass (fun since same => by cases same), ?_⟩
  rw [pass_moves rfl]
  refine ⟨extracts_pass (fun since same => by cases same), trivial⟩

end Dropway.Api
