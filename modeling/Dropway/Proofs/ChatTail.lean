import Dropway.Edge.ChatPage
import Dropway.Proofs.ChatNumbers

/-! What the compiled transcript has of its log. The compilation lists the log from
its start, up to a limit, and the page calls what it is handed the last messages. -/

namespace Dropway.Api
open Lib Lib.Outcome
open ChatDb

variable {db after : ChatDb} {t : Tenant} {logId : Text} {handed : Text → List Int}

/-- A message as the transcript has it. -/
def compiledMessage (row : ChatMessageRow) : ChatTranscriptMessage :=
  { seq := row.seq, role := row.role, kind := row.kind, content := row.content
    actionMeta := row.actionMeta, versionId := row.versionId, createdAt := row.createdAt }

/-! ### What the page says -/

/-- The line is true of a transcript: what it calls the last messages are those
with the last numbers, and what it calls the messages are all of the log. -/
def LineHolds (logged : List ChatMessageRow) (transcript : ChatTranscript) : Prop :=
  match Edge.countLine transcript.messages.length transcript.totalAppended with
  | .last shown total => transcript.messages.map ChatTranscriptMessage.seq = upTo total shown.toNat
  | .all shown => transcript.messages = logged.map compiledMessage ∧ (logged.length : Int) = shown

/-- The transcript is the tail of the log, and the page speaks the truth about it. -/
structure TailOfLog (logged : List ChatMessageRow) (transcript : ChatTranscript) : Prop where
  suffix : transcript.messages <:+ logged.map compiledMessage
  line : LineHolds logged transcript

/-- No message that is newer than the oldest stored one has been deleted. -/
def Unbroken (logged : List ChatMessageRow) (nextSeq : Int) : Prop :=
  ∀ row ∈ logged, ∀ seq, row.seq ≤ seq → seq < nextSeq → ∃ other ∈ logged, other.seq = seq

/-- The log is no longer than the limit, and it has all the messages that were
appended or an unbroken run of the latest. -/
structure Listable (logged : List ChatMessageRow) (nextSeq : Int) : Prop where
  short : logged.length ≤ 1000
  unbroken : nextSeq - 1 ≤ logged.length ∨ Unbroken logged nextSeq

/-! ### Numbers in range -/

/-- The numbers begin at one and fit the column. -/
structure InRange (db : ChatDb) : Prop where
  least : ∀ row ∈ db.messages.rows, 1 ≤ row.seq
  most : ∀ log ∈ db.logs.rows, log.nextSeq < 2 ^ 31

/-- What a transaction does to the numbers: at most it begins a log or lets messages
go, or it appends. -/
inductive NumberStep (db after : ChatDb) : Prop where
  | quiet (logs : ∀ log ∈ after.logs.rows, log.nextSeq = 1 ∨ ∃ old ∈ db.logs.rows, old.nextSeq = log.nextSeq)
      (messages : after.messages.rows ⊆ db.messages.rows)
  | appends {t : Tenant} {logId : Text} {batch : ChatBatch} {result : AppendChatResult}
      (appended : Appended db t logId batch result after)

private theorem same_step : NumberStep db db :=
  .quiet (fun log mem => .inr ⟨log, mem, rfl⟩) (List.Subset.refl _)

private theorem update_step {p : ChatLogRow → Bool} {change : ChatLogRow → ChatLogRow}
    {keeps : ∀ row, (change row).id = row.id} (numbers : ∀ row, (change row).nextSeq = row.nextSeq) :
    NumberStep db { db with logs := db.logs.update p change keeps } := by
  have rows (log : ChatLogRow) : log ∈ (db.logs.update p change keeps).rows ↔
      ∃ old ∈ db.logs.rows, (if p old then change old else old) = log := Table.mem_update
  refine .quiet ?_ (List.Subset.refl _)
  intro log mem
  obtain ⟨old, oldMem, rfl⟩ := (rows log).mp mem
  refine .inr ⟨old, oldMem, ?_⟩
  by_cases selected : p old = true
  · rw [if_pos selected, numbers]
  · rw [if_neg selected]

private theorem insert_step {log : ChatLogRow} {free : db.logs.get? log.id = none} (first : log.nextSeq = 1) :
    NumberStep db { db with logs := db.logs.insert log free } := by
  have rows (row : ChatLogRow) : row ∈ (db.logs.insert log free).rows ↔ row ∈ db.logs.rows ∨ row = log :=
    Table.mem_insert
  refine .quiet ?_ (List.Subset.refl _)
  intro row mem
  rcases (rows row).mp mem with old | rfl
  · exact .inr ⟨row, old, rfl⟩
  · exact .inl first

private theorem create_step {id title sourceTool : Text} {siteId : Option Text}
    (ok : db.createChatLog t id title sourceTool siteId = .ok after) : NumberStep db after := by
  unfold createChatLog at ok
  obtain ⟨_, -, ok⟩ := bind_ok.mp ok
  obtain ⟨_, -, ok⟩ := bind_ok.mp ok
  split at ok
  · cases ok
  · cases ok
    exact insert_step rfl

private theorem delete_step {seq : Int} (ok : db.deleteChatMessage t logId seq = .ok after) : NumberStep db after := by
  unfold deleteChatMessage at ok
  obtain ⟨_, -, ok⟩ := bind_ok.mp ok
  obtain ⟨_, -, ok⟩ := bind_ok.mp ok
  cases ok
  exact .quiet (fun log mem => .inr ⟨log, mem, rfl⟩) (List.filter_subset_self _)

private theorem site_step {id : Text} {siteId : Option Text} (ok : db.setChatLogSite t id siteId = .ok after) :
    NumberStep db after := by
  unfold setChatLogSite at ok
  obtain ⟨_, -, ok⟩ := bind_ok.mp ok
  obtain ⟨_, -, ok⟩ := bind_ok.mp ok
  obtain ⟨_, -, ok⟩ := bind_ok.mp ok
  cases ok
  exact update_step fun _ => rfl

private theorem panel_step {id : Text} {enabled : Bool} (ok : db.setChatLogPanel t id enabled = .ok after) :
    NumberStep db after := by
  unfold setChatLogPanel at ok
  obtain ⟨_, -, ok⟩ := bind_ok.mp ok
  cases ok
  exact update_step fun _ => rfl

theorem commit_step (op : ChatOp) : NumberStep db (op.commit db) := by
  unfold ChatOp.commit
  cases ran : op.transact db with
  | error error => exact same_step
  | ok committed =>
    cases op with
    | createChatLog t id title sourceTool siteId =>
      obtain ⟨made, ok, ran⟩ := bind_ok.mp ran
      cases ran
      exact create_step ok
    | appendChatMessages t logId batch now =>
      obtain ⟨appended, ok, ran⟩ := bind_ok.mp ran
      cases ran
      exact .appends (append_ok ok)
    | deleteChatMessage t logId seq =>
      obtain ⟨made, ok, ran⟩ := bind_ok.mp ran
      cases ran
      exact delete_step ok
    | setPlanTier orgId tier =>
      cases ran
      exact .quiet (fun log mem => .inr ⟨log, mem, rfl⟩) (List.Subset.refl _)
    | setChatLogSite t id siteId =>
      obtain ⟨made, ok, ran⟩ := bind_ok.mp ran
      cases ran
      exact site_step ok
    | setChatLogPanel t id enabled =>
      obtain ⟨made, ok, ran⟩ := bind_ok.mp ran
      cases ran
      exact panel_step ok
    | setSites sites =>
      cases ran
      exact .quiet (fun log mem => .inr ⟨log, mem, rfl⟩) (List.Subset.refl _)

theorem InRange.step (inRange : InRange db) (numbered : NumberedAs handed db) (step : NumberStep db after) :
    InRange after := by
  cases step with
  | quiet logs messages =>
    constructor
    · exact fun row mem => inRange.least row (messages mem)
    · intro log mem
      rcases logs log mem with first | ⟨old, oldMem, same⟩
      · omega
      · exact same ▸ inRange.most old oldMem
  | appends appended =>
    obtain ⟨log, logMem, sameLog, owned, seqs⟩ := appended.seqs numbered
    obtain ⟨found, foundMem, sameFound, -, room, -⟩ := appended.log
    have first := numbered.positive log logMem
    constructor
    · intro row mem
      rcases List.mem_append.mp (appended.messages.subset mem) with old | new
      · exact inRange.least row old
      · obtain ⟨i, -, number⟩ := List.mem_map.mp (seqs ▸ List.mem_map_of_mem new)
        omega
    · intro after mem
      rw [appended.logs] at mem
      obtain ⟨old, oldMem, rfl⟩ := List.mem_map.mp mem
      have before := inRange.most old oldMem
      split
      · rename_i selected
        have own := (of_decide_eq_true selected).1
        rw [db.logs.eq_of_key oldMem foundMem (own.trans sameFound.symm)]
        exact room
      · exact before

theorem InRange.run (inRange : InRange db) (numbered : NumberedAs handed db) (ops : List ChatOp) :
    InRange (runOps ops db) := by
  induction ops generalizing handed db with
  | nil => exact inRange
  | cons op rest ih => exact ih (inRange.step numbered (commit_step op)) (numbered.step op)

theorem inRange_start (planTiers : Text → Option Text) (sites : Table ChatSite.id) :
    InRange (ChatDb.start planTiers sites) := by
  constructor
  · intro row mem
    cases mem
  · intro log mem
    cases mem

/-! ### The compilation -/

/-- What is compiled of a log: its first messages, up to the limit. -/
structure Compiles (db : ChatDb) (logId : Text) (log : ChatLogRow) (transcript : ChatTranscript) : Prop where
  messages : transcript.messages = ((db.rowsOf logId).take 1000).map compiledMessage
  total : transcript.totalAppended = log.nextSeq - 1

theorem messagesOf_owned (numbered : NumberedAs handed db) {log : ChatLogRow} (mem : log ∈ db.logs.rows) :
    db.messagesOf log.id log.orgId = db.rowsOf log.id := by
  refine List.filter_congr fun row rowMem => ?_
  by_cases own : row.chatLogId = log.id
  · simp [own, (numbered.owned row rowMem log mem own.symm).symm]
  · simp [own]

theorem listChatMessages_all (numbered : NumberedAs handed db) (inRange : InRange db) {log : ChatLogRow}
    (mem : log ∈ db.logs.rows) :
    db.listChatMessages log.id log.orgId 0 maxImportMessages = (db.rowsOf log.id).take 1000 := by
  have positive : (db.rowsOf log.id).filter (fun row => decide (0 < row.seq)) = db.rowsOf log.id := by
    rw [List.filter_eq_self]
    intro row rowMem
    have least := inRange.least row (List.mem_filter.mp rowMem).1
    exact decide_eq_true (by omega)
  have sorted : (db.rowsOf log.id).mergeSort (fun one two => decide (one.seq ≤ two.seq)) = db.rowsOf log.id := by
    apply List.mergeSort_of_pairwise
    refine (List.pairwise_map.mp (numbered.ordered log.id)).imp fun less => ?_
    exact decide_eq_true (by omega)
  unfold listChatMessages
  rw [messagesOf_owned numbered mem, positive, sorted]
  rfl

theorem compile_ok (numbered : NumberedAs handed db) (inRange : InRange db) {log : ChatLogRow}
    (found : db.getChatLog logId t.orgId = some log) :
    ∃ transcript, db.compileChatTranscript t logId = .ok transcript ∧ Compiles db logId log transcript := by
  have got : db.getChatLogTx t logId = .ok log := by
    obtain ⟨-, owned⟩ := Option.filter_eq_some_iff.mp found
    unfold getChatLogTx
    rw [found]
    simp only [orFail, require, if_pos (of_decide_eq_true owned), bind, Except.bind, pure, Except.pure]
  obtain ⟨mem, rfl, owned⟩ := getChatLogTx_ok got
  have first := numbered.positive log mem
  have most := inRange.most log mem
  unfold compileChatTranscript
  rw [got, ← owned, listChatMessages_all numbered inRange mem]
  exact ⟨_, rfl, rfl, int32_eq (by omega) (by omega)⟩

/-! ### When it is the tail -/

section Tail

variable {logged : List ChatMessageRow} (increasing : (logged.map ChatMessageRow.seq).Pairwise (· < ·))

include increasing in
/-- The start of a list is its end only if it is all of it. -/
theorem take_suffix_iff (limit : Nat) (positive : 0 < limit) :
    (logged.take limit).map compiledMessage <:+ logged.map compiledMessage ↔ logged.length ≤ limit := by
  constructor
  · intro suffix
    by_contra long
    have seqs : (logged.take limit).map ChatMessageRow.seq <:+ logged.map ChatMessageRow.seq := by
      have mapped := suffix.map ChatTranscriptMessage.seq
      simpa only [List.map_map, Function.comp_def, compiledMessage] using mapped
    obtain ⟨before, split⟩ := seqs
    cases logged with
    | nil => simp at long
    | cons first rest =>
      obtain ⟨limit, rfl⟩ := Nat.exists_eq_succ_of_ne_zero positive.ne'
      have lengths := congrArg List.length split
      rw [List.take_succ_cons, List.map_cons] at split
      cases before with
      | nil =>
        simp only [List.length_append, List.length_map, List.length_take, List.length_nil, List.length_cons] at lengths long
        omega
      | cons other before =>
        rw [List.cons_append, List.map_cons, List.cons.injEq] at split
        have again : first.seq ∈ rest.map ChatMessageRow.seq := by
          rw [← split.2]
          exact List.mem_append_right _ List.mem_cons_self
        have less := (List.pairwise_cons.mp increasing).1 _ again
        exact absurd less (lt_irrefl _)
  · intro short
    rw [List.take_of_length_le short]

include increasing in
theorem unbroken_iff {nextSeq : Int} (below : ∀ row ∈ logged, row.seq < nextSeq) :
    Unbroken logged nextSeq ↔ logged.map ChatMessageRow.seq = upTo (nextSeq - 1) logged.length := by
  have most : ∀ number ∈ logged.map ChatMessageRow.seq, number ≤ nextSeq - 1 := by
    intro number mem
    obtain ⟨row, rowMem, rfl⟩ := List.mem_map.mp mem
    have less := below row rowMem
    omega
  have counted := eq_upTo increasing most
  rw [List.length_map] at counted
  rw [← counted]
  constructor
  · intro unbroken number mem later before after
    obtain ⟨row, rowMem, rfl⟩ := List.mem_map.mp mem
    obtain ⟨other, otherMem, rfl⟩ := unbroken row rowMem later before (by omega)
    exact List.mem_map_of_mem otherMem
  · intro full row rowMem seq before after
    obtain ⟨other, otherMem, same⟩ := List.mem_map.mp (full row.seq (List.mem_map_of_mem rowMem) seq before (by omega))
    exact ⟨other, otherMem, same⟩

end Tail

theorem tail_iff {log : ChatLogRow} {transcript : ChatTranscript} (numbered : NumberedAs handed db)
    (listed : log ∈ db.logs.rows) (compiles : Compiles db log.id log transcript) :
    TailOfLog (db.rowsOf log.id) transcript ↔ Listable (db.rowsOf log.id) log.nextSeq := by
  have increasing := numbered.ordered log.id
  have below : ∀ row ∈ db.rowsOf log.id, row.seq < log.nextSeq := by
    intro row mem
    obtain ⟨rowMem, own⟩ := List.mem_filter.mp mem
    exact numbered.below log listed row.seq (of_decide_eq_true own ▸ numbered.stored row rowMem)
  have whole (short : (db.rowsOf log.id).length ≤ 1000) :
      transcript.messages = (db.rowsOf log.id).map compiledMessage := by
    rw [compiles.messages, List.take_of_length_le short]
  have seqs (short : (db.rowsOf log.id).length ≤ 1000) :
      transcript.messages.map ChatTranscriptMessage.seq = (db.rowsOf log.id).map ChatMessageRow.seq := by
    rw [whole short, List.map_map]
    rfl
  constructor
  · rintro ⟨suffix, line⟩
    rw [compiles.messages] at suffix
    have short := (take_suffix_iff increasing 1000 (by omega)).mp suffix
    refine ⟨short, ?_⟩
    by_cases all : log.nextSeq - 1 ≤ (db.rowsOf log.id).length
    · exact .inl all
    · refine .inr ((unbroken_iff increasing below).mpr ?_)
      unfold LineHolds Edge.countLine at line
      rw [compiles.total, whole short, List.length_map, if_pos (by omega)] at line
      simp only [Int.toNat_natCast] at line
      rw [← whole short, seqs short] at line
      exact line
  · rintro ⟨short, unbroken⟩
    refine ⟨?_, ?_⟩
    · rw [compiles.messages]
      exact (take_suffix_iff increasing 1000 (by omega)).mpr short
    · unfold LineHolds Edge.countLine
      rw [compiles.total, whole short, List.length_map]
      by_cases all : ((db.rowsOf log.id).length : Int) < log.nextSeq - 1
      · rw [if_pos all]
        simp only [Int.toNat_natCast]
        rw [← whole short, seqs short]
        rcases unbroken with few | unbroken
        · omega
        · exact (unbroken_iff increasing below).mp unbroken
      · rw [if_neg all]
        exact ⟨rfl, rfl⟩

/-- After any run, a log has a transcript, and this is the tail of the log exactly
if the log is short enough and has only lost its oldest messages. -/
theorem transcript_tail (planTiers : Text → Option Text) (sites : Table ChatSite.id) (ops : List ChatOp)
    (t : Tenant) (logId : Text) :
    let db := runOps ops (ChatDb.start planTiers sites)
    match db.getChatLog logId t.orgId with
    | none => db.compileChatTranscript t logId = .error .notFound
    | some log => ∃ transcript, db.compileChatTranscript t logId = .ok transcript ∧
        (TailOfLog (db.rowsOf logId) transcript ↔ Listable (db.rowsOf logId) log.nextSeq) := by
  intro db
  have numbered : NumberedAs (fun id => [] ++ handedOut id ops (ChatDb.start planTiers sites)) db :=
    (start_numbered planTiers sites).run ops
  have inRange : InRange db := (inRange_start planTiers sites).run (start_numbered planTiers sites) ops
  cases found : db.getChatLog logId t.orgId with
  | none =>
    simp only
    unfold compileChatTranscript getChatLogTx
    rw [found]
    rfl
  | some log =>
    simp only
    obtain ⟨transcript, compiled, compiles⟩ := compile_ok numbered inRange found
    obtain ⟨got, -⟩ := Option.filter_eq_some_iff.mp found
    obtain ⟨mem, rfl⟩ := Table.get?_eq_some.mp got
    exact ⟨transcript, compiled, tail_iff numbered mem compiles⟩

/-! ### A log that is too long -/

theorem insertAll_succeeds {rows : List ChatMessageRow} (distinct : (rows.map ChatMessageRow.place).Nodup)
    (fresh : ∀ row ∈ rows, db.messages.get? row.place = none)
    (roles : ∀ row ∈ rows, ["user".toList, "assistant".toList].contains row.role = true)
    (kinds : ∀ row ∈ rows, ["chat".toList, "action".toList].contains row.kind = true) :
    ∃ after, rows.foldlM insertChatMessage db = .ok after := by
  induction rows generalizing db with
  | nil => exact ⟨db, rfl⟩
  | cons row rest ih =>
    obtain ⟨apart, distinct⟩ := List.nodup_cons.mp distinct
    have free := fresh row List.mem_cons_self
    have inserted : db.insertChatMessage row = .ok { db with messages := db.messages.insert row free } := by
      unfold insertChatMessage
      simp only [require, roles row List.mem_cons_self, kinds row List.mem_cons_self, if_true, bind, Except.bind]
      split
      · rename_i taken
        rw [free] at taken
        cases taken
      · rfl
    rw [List.foldlM_cons, inserted]
    refine ih distinct ?_ (fun other mem => roles other (List.mem_cons_of_mem _ mem))
      (fun other mem => kinds other (List.mem_cons_of_mem _ mem))
    intro other mem
    have differ : row.place ≠ other.place := fun same => apart (same ▸ List.mem_map_of_mem mem)
    rw [Table.get?_insert, if_neg differ]
    exact fresh other (List.mem_cons_of_mem _ mem)

/-- A batch of messages that the tables accept is appended where the tier has room. -/
theorem append_succeeds {log : ChatLogRow} {batch : ChatBatch} {now : Instant} (numbered : NumberedAs handed db)
    (mem : log ∈ db.logs.rows) (owned : log.orgId = t.orgId)
    (free : db.requireRoom t.orgId log.id batch.messages.length = .ok ()) (nonempty : batch.messages ≠ [])
    (roles : ∀ m ∈ batch.messages, ["user".toList, "assistant".toList].contains m.role = true)
    (kinds : ∀ m ∈ batch.messages, ["chat".toList, "action".toList].contains m.kind = true)
    (room : log.nextSeq + batch.messages.length < 2 ^ 31) :
    ∃ result after, db.appendChatMessages t log.id batch now = .ok (result, after) := by
  have first := numbered.positive log mem
  have found : db.getChatLog log.id t.orgId = some log :=
    Option.filter_eq_some_iff.mpr ⟨Table.get?_eq_some.mpr ⟨mem, rfl⟩, decide_eq_true owned⟩
  have got : db.getChatLogTx t log.id = .ok log := by
    unfold getChatLogTx
    exact bind_ok.mpr ⟨log, orFail_ok.mpr found, bind_ok.mpr ⟨(), require_ok.mpr owned, rfl⟩⟩
  have reserved : db.allocateChatSeq log.id t.orgId (int32 batch.messages.length) = .ok (log.nextSeq,
      { db with
        logs := db.logs.update (fun row => row.id = log.id ∧ row.orgId = t.orgId) (advance batch.messages.length)
          (advance_id batch.messages.length) }) := by
    rw [count_int32]
    unfold allocateChatSeq
    refine bind_ok.mpr ⟨log, orFail_ok.mpr found, bind_ok.mpr ⟨(), require_ok.mpr ⟨by omega, by omega⟩, ?_⟩⟩
    rw [pure_ok, Prod.mk.injEq]
    exact ⟨by omega, rfl⟩
  have rowsOk (row : ChatMessageRow)
      (rowMem : row ∈ batchRows t log.id (db.versionStamp t.orgId log) now log.nextSeq batch.messages) :
      ["user".toList, "assistant".toList].contains row.role = true ∧
        ["chat".toList, "action".toList].contains row.kind = true := by
    obtain ⟨i, inside, rfl⟩ := List.mem_mapIdx.mp rowMem
    exact ⟨roles _ (List.getElem_mem inside), kinds _ (List.getElem_mem inside)⟩
  have seqs : (batchRows t log.id (db.versionStamp t.orgId log) now log.nextSeq batch.messages).map ChatMessageRow.seq =
      (List.range batch.messages.length).map fun i : Nat => log.nextSeq + i := batchRows_seqs first room
  have places (row : ChatMessageRow)
      (rowMem : row ∈ batchRows t log.id (db.versionStamp t.orgId log) now log.nextSeq batch.messages) :
      row.chatLogId = log.id := (batchRows_place rowMem).1
  generalize isRows : batchRows t log.id (db.versionStamp t.orgId log) now log.nextSeq batch.messages = rows
    at rowsOk seqs places
  have increasing : (rows.map ChatMessageRow.seq).Pairwise (· < ·) := seqs ▸ numbers_increasing _ _
  have distinct : (rows.map ChatMessageRow.place).Nodup := by
    refine List.pairwise_map.mpr ((List.pairwise_map.mp increasing).imp fun less same => ?_)
    have seq := congrArg Prod.snd same
    simp only [ChatMessageRow.place] at seq
    omega
  have fresh (row : ChatMessageRow) (rowMem : row ∈ rows) : db.messages.get? row.place = none := by
    rw [Table.get?_eq_none]
    intro old oldMem taken
    obtain ⟨place, seq⟩ := Prod.mk.inj taken
    have below := numbered.below log mem old.seq (by rw [← places row rowMem, ← place]; exact numbered.stored old oldMem)
    obtain ⟨i, -, number⟩ := List.mem_map.mp (seqs ▸ List.mem_map_of_mem rowMem)
    omega
  have insertable : ∃ after, rows.foldlM insertChatMessage { db with
      logs := db.logs.update (fun row => row.id = log.id ∧ row.orgId = t.orgId) (advance batch.messages.length)
        (advance_id batch.messages.length) } = .ok after :=
    insertAll_succeeds distinct fresh (fun row rowMem => (rowsOk row rowMem).1) (fun row rowMem => (rowsOk row rowMem).2)
  obtain ⟨inserted, added⟩ := insertable
  unfold appendChatMessages
  refine ⟨_, _, bind_ok.mpr ⟨(), require_ok.mpr nonempty, bind_ok.mpr ⟨log, got, bind_ok.mpr ⟨(), free,
    bind_ok.mpr ⟨_, reserved, bind_ok.mpr ⟨inserted, ?_, rfl⟩⟩⟩⟩⟩⟩
  simp only [isRows]
  exact added

section Long

private def ada : Tenant := ⟨"org".toList, "ada".toList⟩
private def plan : Text := "plan".toList

/-- A log without a window or a cap that has had `n` messages. -/
private structure Holds (n : Nat) (db : ChatDb) : Prop where
  log : ∃ log ∈ db.logs.rows, log.id = plan ∧ log.orgId = ada.orgId ∧ log.nextSeq = n + 1
  tier : db.getPlanTier ada.orgId = Cloud.tierBusiness
  length : (db.rowsOf plan).length = n
  numbered : ∃ handed, NumberedAs handed db

private def said : ChatMessage where
  kind := "chat".toList
  role := "user".toList
  content := "hi".toList
  actionMeta := none

private def hello (k : Nat) (small : k < 2 ^ 31) : ChatBatch where
  messages := List.replicate k said
  fits := by rwa [List.length_replicate]

private theorem Holds.appends {n k : Nat} (holds : Holds n db) (more : 0 < k) (small : k < 2 ^ 31)
    (room : n + 1 + k < 2 ^ 31) : ∃ result after, db.appendChatMessages ada plan (hello k small) 0 = .ok (result, after) := by
  obtain ⟨log, mem, same, owned, nextSeq⟩ := holds.log
  obtain ⟨handed, numbered⟩ := holds.numbered
  have size : (hello k small).messages.length = k := List.length_replicate
  have free : db.requireRoom ada.orgId log.id (hello k small).messages.length = .ok () := by
    unfold requireRoom
    rw [holds.tier]
    rfl
  have said (m : ChatMessage) (listed : m ∈ (hello k small).messages) : m = said := List.eq_of_mem_replicate listed
  rw [← same]
  refine append_succeeds numbered mem owned free (List.ne_nil_of_length_pos (by omega)) ?_ ?_ (by omega)
  · exact fun m listed => by rw [said m listed]; rfl
  · exact fun m listed => by rw [said m listed]; rfl

private theorem Holds.append {n k : Nat} (holds : Holds n db) (more : 0 < k) (small : k < 2 ^ 31)
    (room : n + 1 + k < 2 ^ 31) :
    Holds (n + k) ((ChatOp.appendChatMessages ada plan (hello k small) 0).commit db) := by
  obtain ⟨result, after, ok⟩ := holds.appends more small room
  have appended := append_ok ok
  obtain ⟨handed, numbered⟩ := holds.numbered
  have committed : (ChatOp.appendChatMessages ada plan (hello k small) 0).commit db = after := by
    unfold ChatOp.commit
    simp only [ChatOp.transact, ok, bind, Except.bind, pure, Except.pure]
  rw [committed]
  have size : (hello k small).messages.length = k := List.length_replicate
  refine ⟨?_, ?_, ?_, _, appended.numbers numbered⟩
  · obtain ⟨log, mem, same, owned, nextSeq⟩ := holds.log
    refine ⟨advance (int32 (hello k small).messages.length) log, ?_, same, owned, ?_⟩
    · rw [appended.logs]
      exact List.mem_map.mpr ⟨log, mem, if_pos (decide_eq_true ⟨same, owned⟩)⟩
    · rw [count_int32, size]
      simp only [advance, nextSeq]
      push_cast
      omega
  · rw [getPlanTier, appended.tiers]
    exact holds.tier
  · obtain ⟨whole, rows, kept⟩ := appended.kept
    rw [holds.tier] at kept
    have count := congrArg List.length (appended.seqs numbered).choose_spec.2.2.2
    rw [List.length_map, List.length_map, List.length_range, size] at count
    unfold ChatDb.rowsOf Table.filter
    rw [kept.1, rows, List.filter_append, List.length_append, appended.own, if_pos rfl, count]
    exact congrArg (· + k) holds.length

private theorem Holds.not_tail {n : Nat} (holds : Holds n db) (inRange : InRange db) (long : 1000 < n) :
    ∃ transcript, db.compileChatTranscript ada plan = .ok transcript ∧ ¬ TailOfLog (db.rowsOf plan) transcript := by
  obtain ⟨log, mem, same, owned, -⟩ := holds.log
  obtain ⟨handed, numbered⟩ := holds.numbered
  have found : db.getChatLog plan ada.orgId = some log :=
    Option.filter_eq_some_iff.mpr ⟨Table.get?_eq_some.mpr ⟨mem, same⟩, decide_eq_true owned⟩
  obtain ⟨transcript, compiled, compiles⟩ := compile_ok numbered inRange found
  refine ⟨transcript, compiled, fun tail => ?_⟩
  have suffix := tail.suffix
  rw [compiles.messages] at suffix
  have short := (take_suffix_iff (numbered.ordered plan) 1000 (by omega)).mp suffix
  rw [holds.length] at short
  omega

/-- Two imports on a tier without a cap leave 1001 messages. The transcript has the
first 1000, and the page calls them the last. -/
theorem long_log_not_tail :
    ¬ ∀ (planTiers : Text → Option Text) (sites : Table ChatSite.id) (ops : List ChatOp) (t : Tenant) (logId : Text)
      (transcript : ChatTranscript), (runOps ops (ChatDb.start planTiers sites)).compileChatTranscript t logId =
          .ok transcript →
        TailOfLog ((runOps ops (ChatDb.start planTiers sites)).rowsOf logId) transcript := by
  intro tail
  have thousand : 1000 < 2 ^ 31 := by omega
  have one : 1 < 2 ^ 31 := by omega
  have begun : Holds 0 ((ChatOp.createChatLog ada plan [] [] none).commit
      (ChatDb.start (fun _ => some Cloud.tierBusiness) .empty)) := by
    refine ⟨?_, rfl, rfl, _, (start_numbered _ _).step _⟩
    exact ⟨⟨plan, ada.orgId, none, [], "other".toList, true, 1, ada.userId⟩, by decide +kernel, rfl, rfl, rfl⟩
  have imported := begun.append (by omega) thousand (by omega)
  have long := imported.append (by omega) one (by omega)
  have inRange := (inRange_start (fun _ => some Cloud.tierBusiness) .empty).run (start_numbered _ _)
    [.createChatLog ada plan [] [] none, .appendChatMessages ada plan (hello 1000 thousand) 0,
      .appendChatMessages ada plan (hello 1 one) 0]
  have run (first second third : ChatOp) (db : ChatDb) :
      runOps [first, second, third] db = third.commit (second.commit (first.commit db)) := rfl
  have inOrder := run (.createChatLog ada plan [] [] none) (.appendChatMessages ada plan (hello 1000 thousand) 0)
    (.appendChatMessages ada plan (hello 1 one) 0) (ChatDb.start (fun _ => some Cloud.tierBusiness) .empty)
  rw [← inOrder] at long
  obtain ⟨transcript, compiled, notTail⟩ := long.not_tail inRange (by omega)
  exact notTail (tail (fun _ => some Cloud.tierBusiness) .empty [.createChatLog ada plan [] [] none,
    .appendChatMessages ada plan (hello 1000 thousand) 0, .appendChatMessages ada plan (hello 1 one) 0] ada plan
    transcript compiled)

end Long

end Dropway.Api
