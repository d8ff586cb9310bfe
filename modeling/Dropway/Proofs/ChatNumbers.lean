import Dropway.Api.Chats
import Dropway.Lib.Newest

/-! The numbers of the messages in a chat log. They only grow, whatever is
deleted, pruned or refused in between. -/

namespace Dropway.Api
open Lib Lib.Outcome
open ChatDb

variable {db after : ChatDb} {t : Tenant} {logId : Text} {batch : ChatBatch} {now : Instant}

/-- The messages of a log, whoever they belong to. -/
def ChatDb.rowsOf (db : ChatDb) (logId : Text) : List ChatMessageRow :=
  db.messages.filter fun row => row.chatLogId = logId

/-! ### What an append does -/

theorem int32_eq {n : Int} (least : -(2 ^ 31) ≤ n) (most : n < 2 ^ 31) : int32 n = n :=
  Int.bmod_eq_of_le (by omega) (by omega)

private theorem insert_rows {row : ChatMessageRow} (ok : db.insertChatMessage row = .ok after) :
    after.messages.rows = db.messages.rows ++ [row] ∧ after.logs = db.logs ∧ after.planTiers = db.planTiers := by
  unfold insertChatMessage at ok
  obtain ⟨_, -, ok⟩ := bind_ok.mp ok
  obtain ⟨_, -, ok⟩ := bind_ok.mp ok
  split at ok
  · cases ok
  · cases ok
    exact ⟨rfl, rfl, rfl⟩

theorem insertAll_rows {rows : List ChatMessageRow} (ok : rows.foldlM insertChatMessage db = .ok after) :
    after.messages.rows = db.messages.rows ++ rows ∧ after.logs = db.logs ∧ after.planTiers = db.planTiers := by
  induction rows generalizing db with
  | nil =>
    cases ok
    exact ⟨(List.append_nil _).symm, rfl, rfl⟩
  | cons row rest ih =>
    rw [List.foldlM_cons] at ok
    obtain ⟨next, inserted, ok⟩ := bind_ok.mp ok
    obtain ⟨rows, logs, tiers⟩ := insert_rows inserted
    obtain ⟨rows', logs', tiers'⟩ := ih ok
    refine ⟨?_, logs'.trans logs, tiers'.trans tiers⟩
    rw [rows', rows, List.append_assoc, List.singleton_append]

theorem getChatLogTx_ok {log : ChatLogRow} (found : db.getChatLogTx t logId = .ok log) :
    log ∈ db.logs.rows ∧ log.id = logId ∧ log.orgId = t.orgId := by
  unfold getChatLogTx at found
  obtain ⟨row, got, found⟩ := bind_ok.mp found
  obtain ⟨_, owned, found⟩ := bind_ok.mp found
  cases found
  obtain ⟨listed, -⟩ := Option.filter_eq_some_iff.mp (orFail_ok.mp got)
  obtain ⟨mem, same⟩ := Table.get?_eq_some.mp listed
  exact ⟨mem, same, require_ok.mp owned⟩

theorem allocateChatSeq_ok {id orgId : Text} {count base : Int}
    (ok : db.allocateChatSeq id orgId count = .ok (base, after)) :
    ∃ log ∈ db.logs.rows, log.id = id ∧ log.orgId = orgId ∧ log.nextSeq + count < 2 ^ 31 ∧
      base = log.nextSeq ∧ after = { db with
        logs := db.logs.update (fun row => row.id = id ∧ row.orgId = orgId) (advance count) (advance_id count) } := by
  unfold allocateChatSeq at ok
  obtain ⟨log, got, ok⟩ := bind_ok.mp ok
  obtain ⟨_, range, ok⟩ := bind_ok.mp ok
  cases ok
  obtain ⟨listed, owned⟩ := Option.filter_eq_some_iff.mp (orFail_ok.mp got)
  obtain ⟨mem, same⟩ := Table.get?_eq_some.mp listed
  exact ⟨log, mem, same, of_decide_eq_true owned, (require_ok.mp range).2, by omega, rfl⟩

/-- What an append that succeeds has found and left: it has numbered its messages
from the log's next number, and then the window of the tier is kept, or the cap
was. -/
structure Appended (db : ChatDb) (t : Tenant) (logId : Text) (batch : ChatBatch) (result : AppendChatResult)
    (after : ChatDb) : Prop where
  log : ∃ log ∈ db.logs.rows, log.id = logId ∧ log.orgId = t.orgId ∧
    log.nextSeq + int32 batch.messages.length < 2 ^ 31 ∧
    ∃ versionId now, result.messages = batchRows t logId versionId now log.nextSeq batch.messages
  logs : after.logs = db.logs.update (fun row => row.id = logId ∧ row.orgId = t.orgId)
    (advance (int32 batch.messages.length)) (advance_id (int32 batch.messages.length))
  tiers : after.planTiers = db.planTiers
  kept : ∃ whole : ChatDb, whole.messages.rows = db.messages.rows ++ result.messages ∧
    (match Cloud.retentionWindow (db.getPlanTier t.orgId) with
      | some limit => after.messages = (whole.pruneChatMessages logId t.orgId (int32 limit)).messages
      | none => after.messages = whole.messages ∧
        Cloud.allowN (db.getPlanTier t.orgId) (db.countChatMessages logId t.orgId) batch.messages.length = .ok ())

theorem append_ok {result : AppendChatResult}
    (ok : db.appendChatMessages t logId batch now = .ok (result, after)) :
    Appended db t logId batch result after := by
  unfold appendChatMessages at ok
  obtain ⟨_, -, ok⟩ := bind_ok.mp ok
  obtain ⟨log, -, ok⟩ := bind_ok.mp ok
  obtain ⟨_, room, ok⟩ := bind_ok.mp ok
  obtain ⟨⟨base, reserved⟩, allocated, ok⟩ := bind_ok.mp ok
  obtain ⟨inserted, added, ok⟩ := bind_ok.mp ok
  obtain ⟨row, mem, same, owned, most, rfl, rfl⟩ := allocateChatSeq_ok allocated
  obtain ⟨rows, logs, tiers⟩ := insertAll_rows added
  cases ok
  have tier : inserted.getPlanTier t.orgId = db.getPlanTier t.orgId := by
    rw [ChatDb.getPlanTier, tiers, ChatDb.getPlanTier]
  unfold requireRoom at room
  unfold retain
  rw [tier]
  cases windowed : Cloud.retentionWindow (db.getPlanTier t.orgId) with
  | none =>
    rw [windowed] at room
    refine ⟨⟨row, mem, same, owned, most, _, _, rfl⟩, logs, tiers, inserted, rows, ?_⟩
    rw [windowed]
    exact ⟨rfl, mapError_ok.mp room⟩
  | some limit =>
    refine ⟨⟨row, mem, same, owned, most, _, _, rfl⟩, logs, tiers, inserted, rows, ?_⟩
    rw [windowed]

/-! ### The numbers of a batch -/

theorem count_int32 (batch : ChatBatch) : int32 batch.messages.length = batch.messages.length := by
  have fits := batch.fits
  exact int32_eq (by omega) (by omega)

theorem batchRows_place {versionId : Option Text} {base : Int} {messages : List ChatMessage} {row : ChatMessageRow}
    (mem : row ∈ batchRows t logId versionId now base messages) : row.chatLogId = logId ∧ row.orgId = t.orgId := by
  obtain ⟨i, inside, rfl⟩ := List.mem_mapIdx.mp mem
  exact ⟨rfl, rfl⟩

/-- A batch takes the numbers that follow `base`, none of which wraps around. -/
theorem batchRows_seqs {versionId : Option Text} {base : Int} {messages : List ChatMessage}
    (least : 1 ≤ base) (most : base + messages.length < 2 ^ 31) :
    (batchRows t logId versionId now base messages).map ChatMessageRow.seq =
      (List.range messages.length).map fun i : Nat => base + i := by
  apply List.ext_getElem
  · simp [batchRows]
  · intro i inside _
    have small : i < messages.length := by simpa [batchRows] using inside
    simp only [batchRows, List.getElem_map, List.getElem_mapIdx, List.getElem_range]
    rw [int32_eq (n := i) (by omega) (by omega), int32_eq (by omega) (by omega)]

theorem numbers_increasing (base : Int) (n : Nat) :
    ((List.range n).map fun i : Nat => base + i).Pairwise (· < ·) := by
  refine List.pairwise_map.mpr ((List.pairwise_lt_range).imp ?_)
  intro i j less
  omega

/-! ### One log over a run -/

inductive ChatOp where
  | createChatLog (t : Tenant) (id title sourceTool : Text) (siteId : Option Text)
  | appendChatMessages (t : Tenant) (logId : Text) (batch : ChatBatch) (now : Instant)
  | deleteChatMessage (t : Tenant) (logId : Text) (seq : Int)
  | setPlanTier (orgId : Text) (tier : Option Text)
  | setChatLogSite (t : Tenant) (id : Text) (siteId : Option Text)
  | setChatLogPanel (t : Tenant) (id : Text) (enabled : Bool)
  /-- Other requests create, publish and delete sites. -/
  | setSites (sites : Table ChatSite.id)

/-- The rows that a transaction appends and the tables it commits. -/
def ChatOp.transact (db : ChatDb) : ChatOp → Except ChatError (List ChatMessageRow × ChatDb)
  | .createChatLog t id title sourceTool siteId => do return ([], ← db.createChatLog t id title sourceTool siteId)
  | .appendChatMessages t logId batch now => do
    let appended ← db.appendChatMessages t logId batch now
    return (appended.1.messages, appended.2)
  | .deleteChatMessage t logId seq => do return ([], ← db.deleteChatMessage t logId seq)
  | .setPlanTier orgId tier => return ([], { db with planTiers := Function.update db.planTiers orgId tier })
  | .setChatLogSite t id siteId => do return ([], ← db.setChatLogSite t id siteId)
  | .setChatLogPanel t id enabled => do return ([], ← db.setChatLogPanel t id enabled)
  | .setSites sites => return ([], { db with sites })

/-- A transaction that fails is rolled back. -/
def ChatOp.commit (db : ChatDb) (op : ChatOp) : ChatDb :=
  match op.transact db with
  | .ok committed => committed.2
  | .error _ => db

def runOps (ops : List ChatOp) (db : ChatDb) : ChatDb := ops.foldl ChatOp.commit db

/-- The numbers that a transaction gives to messages of the log. -/
def ChatOp.handsOut (db : ChatDb) (logId : Text) (op : ChatOp) : List Int :=
  match op.transact db with
  | .ok committed => (committed.1.filter fun row => row.chatLogId = logId).map ChatMessageRow.seq
  | .error _ => []

/-- All numbers that the run gives to messages of the log, in order. -/
def handedOut (logId : Text) : List ChatOp → ChatDb → List Int
  | [], _ => []
  | op :: rest, db => op.handsOut db logId ++ handedOut logId rest (op.commit db)

/-- What the tables owe to the numbers that have been handed out. -/
structure NumberedAs (handed : Text → List Int) (db : ChatDb) : Prop where
  positive : ∀ log ∈ db.logs.rows, 1 ≤ log.nextSeq
  known : ∀ id, handed id ≠ [] → ∃ log ∈ db.logs.rows, log.id = id
  below : ∀ log ∈ db.logs.rows, ∀ seq ∈ handed log.id, seq < log.nextSeq
  increasing : ∀ id, (handed id).Pairwise (· < ·)
  stored : ∀ row ∈ db.messages.rows, row.seq ∈ handed row.chatLogId
  owned : ∀ row ∈ db.messages.rows, ∀ log ∈ db.logs.rows, log.id = row.chatLogId → log.orgId = row.orgId
  ordered : ∀ id, ((db.rowsOf id).map ChatMessageRow.seq).Pairwise (· < ·)

variable {handed : Text → List Int}

/-- Messages may go, and logs may change where the numbers do not look. -/
private theorem NumberedAs.frame (numbered : NumberedAs handed db)
    (logs : ∀ log ∈ after.logs.rows, ∃ old ∈ db.logs.rows,
      old.id = log.id ∧ old.orgId = log.orgId ∧ old.nextSeq = log.nextSeq)
    (stay : ∀ old ∈ db.logs.rows, ∃ log ∈ after.logs.rows, log.id = old.id)
    (messages : after.messages.rows.Sublist db.messages.rows) : NumberedAs handed after := by
  refine ⟨?_, ?_, ?_, numbered.increasing, ?_, ?_, ?_⟩
  · intro log mem
    obtain ⟨old, oldMem, -, -, same⟩ := logs log mem
    exact same ▸ numbered.positive old oldMem
  · intro id some
    obtain ⟨old, oldMem, rfl⟩ := numbered.known id some
    exact stay old oldMem
  · intro log mem seq given
    obtain ⟨old, oldMem, sameId, -, same⟩ := logs log mem
    exact same ▸ numbered.below old oldMem seq (sameId ▸ given)
  · exact fun row mem => numbered.stored row (messages.subset mem)
  · intro row mem log logMem same
    obtain ⟨old, oldMem, sameId, sameOrg, -⟩ := logs log logMem
    exact sameOrg ▸ numbered.owned row (messages.subset mem) old oldMem (sameId.trans same)
  · exact fun id => (numbered.ordered id).sublist ((messages.filter _).map _)

private theorem NumberedAs.update (numbered : NumberedAs handed db) {p : ChatLogRow → Bool}
    {change : ChatLogRow → ChatLogRow} {keeps : ∀ row, (change row).id = row.id}
    (orgs : ∀ row, (change row).orgId = row.orgId) (numbers : ∀ row, (change row).nextSeq = row.nextSeq) :
    NumberedAs handed { db with logs := db.logs.update p change keeps } := by
  have rows (log : ChatLogRow) : log ∈ (db.logs.update p change keeps).rows ↔
      ∃ old ∈ db.logs.rows, (if p old then change old else old) = log := Table.mem_update
  refine numbered.frame ?_ ?_ (List.Sublist.refl _)
  · intro log mem
    obtain ⟨old, oldMem, rfl⟩ := (rows log).mp mem
    refine ⟨old, oldMem, ?_⟩
    by_cases selected : p old = true
    · rw [if_pos selected]
      exact ⟨(keeps old).symm, (orgs old).symm, (numbers old).symm⟩
    · rw [if_neg selected]
      exact ⟨rfl, rfl, rfl⟩
  · intro old mem
    refine ⟨if p old = true then change old else old, ?_, ?_⟩
    · exact (rows _).mpr ⟨old, mem, rfl⟩
    · by_cases selected : p old = true
      · rw [if_pos selected, keeps]
      · rw [if_neg selected]

private theorem NumberedAs.create (numbered : NumberedAs handed db) {log : ChatLogRow}
    {free : db.logs.get? log.id = none} (first : log.nextSeq = 1) :
    NumberedAs handed { db with logs := db.logs.insert log free } := by
  have unused : handed log.id = [] := by
    by_contra given
    obtain ⟨old, mem, same⟩ := numbered.known log.id given
    exact Table.get?_eq_none.mp free old mem same
  have rows (row : ChatLogRow) : row ∈ (db.logs.insert log free).rows ↔ row ∈ db.logs.rows ∨ row = log :=
    Table.mem_insert
  refine ⟨?_, ?_, ?_, numbered.increasing, numbered.stored, ?_, numbered.ordered⟩
  · intro row mem
    rcases (rows row).mp mem with old | rfl
    · exact numbered.positive row old
    · exact first.ge
  · intro id given
    obtain ⟨old, mem, same⟩ := numbered.known id given
    refine ⟨old, ?_, same⟩
    exact (rows old).mpr (.inl mem)
  · intro row mem seq given
    rcases (rows row).mp mem with old | rfl
    · exact numbered.below row old seq given
    · rw [unused] at given
      cases given
  · intro message mem row rowMem same
    rcases (rows row).mp rowMem with old | rfl
    · exact numbered.owned message mem row old same
    · have given := numbered.stored message mem
      rw [← same, unused] at given
      cases given

/-- The numbers of a log and then those that a batch of rows brings. -/
def handedWith (handed : Text → List Int) (rows : List ChatMessageRow) (id : Text) : List Int :=
  handed id ++ (rows.filter fun row => row.chatLogId = id).map ChatMessageRow.seq

section Append

variable {result : AppendChatResult} (numbered : NumberedAs handed db) (appended : Appended db t logId batch result after)

include appended in
theorem Appended.place {row : ChatMessageRow} (mem : row ∈ result.messages) :
    row.chatLogId = logId ∧ row.orgId = t.orgId := by
  obtain ⟨log, -, -, -, -, versionId, now, rows⟩ := appended.log
  exact batchRows_place (rows ▸ mem)

include appended in
theorem Appended.own (id : Text) :
    result.messages.filter (fun row => row.chatLogId = id) = if id = logId then result.messages else [] := by
  by_cases same : id = logId
  · rw [if_pos same, List.filter_eq_self]
    exact fun row mem => decide_eq_true ((appended.place mem).1.trans same.symm)
  · rw [if_neg same, List.filter_eq_nil_iff]
    exact fun row mem found => same ((of_decide_eq_true found).symm.trans (appended.place mem).1)

include numbered appended in
/-- The new numbers follow each other from the log's next number. -/
theorem Appended.seqs : ∃ log ∈ db.logs.rows, log.id = logId ∧ log.orgId = t.orgId ∧
    result.messages.map ChatMessageRow.seq = (List.range batch.messages.length).map fun i : Nat => log.nextSeq + i := by
  obtain ⟨log, mem, same, owned, most, versionId, now, rows⟩ := appended.log
  rw [count_int32] at most
  exact ⟨log, mem, same, owned, rows ▸ batchRows_seqs (numbered.positive log mem) most⟩

include numbered appended in
theorem Appended.later {old : Int} (given : old ∈ handed logId) {row : ChatMessageRow}
    (mem : row ∈ result.messages) : old < row.seq := by
  obtain ⟨log, logMem, rfl, -, seqs⟩ := appended.seqs numbered
  have below := numbered.below log logMem old given
  obtain ⟨i, -, number⟩ := List.mem_map.mp (seqs ▸ List.mem_map_of_mem mem)
  omega

include appended in
/-- Whatever is pruned, what is left was there or is new. -/
theorem Appended.messages : after.messages.rows.Sublist (db.messages.rows ++ result.messages) := by
  obtain ⟨whole, rows, kept⟩ := appended.kept
  rw [← rows]
  split at kept
  · rw [kept]
    exact List.filter_sublist
  · rw [kept.1]

include numbered appended in
/-- The log's rows with the new ones, before any is pruned. -/
private theorem Appended.ordered (id : Text) :
    (((db.messages.rows ++ result.messages).filter fun row => row.chatLogId = id).map
      ChatMessageRow.seq).Pairwise (· < ·) := by
  rw [List.filter_append, appended.own, List.map_append, List.pairwise_append]
  refine ⟨numbered.ordered id, ?_, ?_⟩
  · by_cases same : id = logId
    · obtain ⟨log, -, -, -, seqs⟩ := appended.seqs numbered
      rw [if_pos same, seqs]
      exact numbers_increasing _ _
    · rw [if_neg same]
      exact List.Pairwise.nil
  · by_cases same : id = logId
    · subst same
      rw [if_pos rfl]
      intro old oldMem new newMem
      obtain ⟨row, rowMem, rfl⟩ := List.mem_map.mp oldMem
      obtain ⟨added, addedMem, rfl⟩ := List.mem_map.mp newMem
      obtain ⟨stored, own⟩ := List.mem_filter.mp rowMem
      exact appended.later numbered (of_decide_eq_true own ▸ numbered.stored row stored) addedMem
    · rw [if_neg same]
      intro _ _ _ none
      cases none

include numbered appended in
theorem Appended.numbers : NumberedAs (handedWith handed result.messages) after := by
  obtain ⟨log, logMem, rfl, owned, seqs⟩ := appended.seqs numbered
  have rows (row : ChatLogRow) : row ∈ after.logs.rows ↔
      ∃ old ∈ db.logs.rows, (if decide (old.id = log.id ∧ old.orgId = t.orgId) then
        advance (int32 batch.messages.length) old else old) = row := by
    rw [appended.logs]
    exact Table.mem_update
  have selected {old : ChatLogRow} (mem : old ∈ db.logs.rows) (same : old.id = log.id) : old = log :=
    db.logs.eq_of_key mem logMem same
  refine ⟨?_, ?_, ?_, ?_, ?_, ?_, ?_⟩
  · intro row mem
    obtain ⟨old, oldMem, rfl⟩ := (rows row).mp mem
    have least := numbered.positive old oldMem
    rw [count_int32]
    split
    · simp only [advance]
      omega
    · exact least
  · intro id given
    have known : ∃ old ∈ db.logs.rows, old.id = id := by
      by_cases same : id = log.id
      · exact ⟨log, logMem, same.symm⟩
      · rw [handedWith, appended.own, if_neg same, List.map_nil, List.append_nil] at given
        exact numbered.known id given
    obtain ⟨old, oldMem, rfl⟩ := known
    refine ⟨_, (rows _).mpr ⟨old, oldMem, rfl⟩, ?_⟩
    split <;> rfl
  · intro row mem seq given
    obtain ⟨old, oldMem, rfl⟩ := (rows row).mp mem
    by_cases same : old.id = log.id
    · obtain rfl := selected oldMem same
      rw [if_pos (decide_eq_true ⟨rfl, owned⟩), count_int32] at given ⊢
      rw [advance_id] at given
      rcases List.mem_append.mp given with before | new
      · have below := numbered.below old oldMem seq before
        simp only [advance]
        omega
      · rw [appended.own, if_pos rfl, seqs] at new
        obtain ⟨i, inside, rfl⟩ := List.mem_map.mp new
        have small := List.mem_range.mp inside
        simp only [advance]
        omega
    · have unselected : ¬ decide (old.id = log.id ∧ old.orgId = t.orgId) = true :=
        fun both => same (of_decide_eq_true both).1
      rw [if_neg unselected] at given ⊢
      rw [handedWith, appended.own, if_neg same, List.map_nil, List.append_nil] at given
      exact numbered.below old oldMem seq given
  · intro id
    rw [handedWith, appended.own, List.pairwise_append]
    refine ⟨numbered.increasing id, ?_, ?_⟩
    · split
      · rw [seqs]
        exact numbers_increasing _ _
      · exact List.Pairwise.nil
    · intro old given new newMem
      split at newMem
      · rename_i same
        obtain ⟨row, mem, rfl⟩ := List.mem_map.mp newMem
        exact appended.later numbered (same ▸ given) mem
      · cases newMem
  · intro row mem
    rcases List.mem_append.mp (appended.messages.subset mem) with old | new
    · exact List.mem_append_left _ (numbered.stored row old)
    · refine List.mem_append_right _ (List.mem_map_of_mem ?_)
      exact List.mem_filter.mpr ⟨new, decide_eq_true rfl⟩
  · intro row mem other otherMem same
    obtain ⟨old, oldMem, rfl⟩ := (rows other).mp otherMem
    have orgs : (if decide (old.id = log.id ∧ old.orgId = t.orgId) = true then
        advance (int32 batch.messages.length) old else old).orgId = old.orgId := by
      split <;> rfl
    have ids : (if decide (old.id = log.id ∧ old.orgId = t.orgId) = true then
        advance (int32 batch.messages.length) old else old).id = old.id := by
      split <;> rfl
    rw [orgs]
    rw [ids] at same
    rcases List.mem_append.mp (appended.messages.subset mem) with before | new
    · exact numbered.owned row before old oldMem same
    · obtain ⟨place, org⟩ := appended.place new
      rw [selected oldMem (same.trans place), owned, org]
  · intro id
    exact (appended.ordered numbered id).sublist ((appended.messages.filter _).map _)

include numbered appended in
/-- The log's rows are those of the tenant. -/
theorem Appended.messagesOf {whole : ChatDb}
    (rows : ∀ row ∈ whole.messages.rows, row ∈ db.messages.rows ++ result.messages) :
    whole.messagesOf logId t.orgId = whole.rowsOf logId := by
  refine List.filter_congr fun row mem => ?_
  obtain ⟨log, logMem, rfl, owned, -⟩ := appended.seqs numbered
  by_cases own : row.chatLogId = log.id
  · have org : row.orgId = t.orgId := by
      rcases List.mem_append.mp (rows row mem) with before | new
      · exact (numbered.owned row before log logMem own.symm).symm.trans owned
      · exact (appended.place new).2
    simp [own, org]
  · simp [own]

include numbered appended in
/-- Exactly the newest messages are left where the tier has a window. -/
theorem Appended.window {limit : Int} (windowed : Cloud.retentionWindow (db.getPlanTier t.orgId) = some limit) :
    after.rowsOf logId = newestRows limit.toNat (db.rowsOf logId ++ result.messages) := by
  obtain ⟨whole, rows, kept⟩ := appended.kept
  rw [windowed] at kept
  have small : int32 limit = limit := by
    unfold Cloud.retentionWindow at windowed
    split at windowed
    · cases windowed
      rfl
    · cases windowed
  have mine : whole.rowsOf logId = db.rowsOf logId ++ result.messages := by
    unfold ChatDb.rowsOf Table.filter
    rw [rows, List.filter_append, appended.own, if_pos rfl]
  have increasing : ((whole.rowsOf logId).map ChatMessageRow.seq).Pairwise (· < ·) := by
    have ordered := appended.ordered numbered logId
    rwa [← rows] at ordered
  have listed := appended.messagesOf numbered fun row mem => rows ▸ mem
  have chosen := filter_newestRows ChatMessageRow.seq increasing limit.toNat
  rw [← mine, ← chosen]
  unfold ChatDb.rowsOf Table.filter
  simp only [kept, pruneChatMessages, Table.delete, newestSeqs, listed, small,
    List.filter_filter]
  refine List.filter_congr fun row mem => ?_
  by_cases own : row.chatLogId = logId
  · have org := (List.mem_filter.mp (listed.symm ▸
      List.mem_filter.mpr ⟨mem, decide_eq_true own⟩ : row ∈ whole.messagesOf logId t.orgId)).2
    simp only [decide_eq_true_eq] at org
    simp [own, org.2, ChatDb.rowsOf, Table.filter]
  · simp [own]

include numbered appended in
/-- A tier with a cap keeps it. -/
theorem Appended.cap {max : Int} {nextTier : Text}
    (unwindowed : Cloud.retentionWindow (db.getPlanTier t.orgId) = none)
    (capped : Cloud.chatMessagesCap (db.getPlanTier t.orgId) = some (max, nextTier)) :
    ((after.rowsOf logId).length : Int) ≤ max := by
  obtain ⟨whole, rows, kept⟩ := appended.kept
  rw [unwindowed] at kept
  have room := (Cloud.allowN_ok capped).mp kept.2
  obtain ⟨log, -, -, -, -, versionId, now, batchRows⟩ := appended.log
  have count : result.messages.length = batch.messages.length := by
    rw [batchRows]
    exact List.length_mapIdx
  have mine : after.rowsOf logId = db.rowsOf logId ++ result.messages := by
    unfold ChatDb.rowsOf Table.filter
    rw [kept.1, rows, List.filter_append, appended.own, if_pos rfl]
  have counted : db.countChatMessages logId t.orgId = (db.rowsOf logId).length := by
    rw [countChatMessages, appended.messagesOf numbered fun row mem => List.mem_append_left _ mem]
  rw [counted] at room
  rw [mine, List.length_append, count]
  exact_mod_cast room

end Append

/-! ### Every transaction -/

private theorem NumberedAs.quiet (numbered : NumberedAs handed db) {op : ChatOp} (committed : Except ChatError ChatDb)
    (runs : op.transact db = committed.map fun after => ([], after))
    (keeps : ∀ after, committed = .ok after → NumberedAs handed after) :
    NumberedAs (fun id => handed id ++ op.handsOut db id) (op.commit db) := by
  unfold ChatOp.handsOut ChatOp.commit
  rw [runs]
  cases committed with
  | error error => simpa only [Except.map, List.append_nil] using numbered
  | ok after => simpa only [Except.map, List.filter_nil, List.map_nil, List.append_nil] using keeps after rfl

private theorem createChatLog_ok {id title sourceTool : Text} {siteId : Option Text}
    (ok : db.createChatLog t id title sourceTool siteId = .ok after) (numbered : NumberedAs handed db) :
    NumberedAs handed after := by
  unfold createChatLog at ok
  obtain ⟨_, -, ok⟩ := bind_ok.mp ok
  obtain ⟨_, -, ok⟩ := bind_ok.mp ok
  split at ok
  · cases ok
  · cases ok
    exact numbered.create rfl

private theorem deleteChatMessage_ok {seq : Int} (ok : db.deleteChatMessage t logId seq = .ok after)
    (numbered : NumberedAs handed db) : NumberedAs handed after := by
  unfold deleteChatMessage at ok
  obtain ⟨_, -, ok⟩ := bind_ok.mp ok
  obtain ⟨_, -, ok⟩ := bind_ok.mp ok
  cases ok
  exact numbered.frame (fun log mem => ⟨log, mem, rfl, rfl, rfl⟩) (fun log mem => ⟨log, mem, rfl⟩)
    List.filter_sublist

private theorem setChatLogSite_ok {id : Text} {siteId : Option Text} (ok : db.setChatLogSite t id siteId = .ok after)
    (numbered : NumberedAs handed db) : NumberedAs handed after := by
  unfold setChatLogSite at ok
  obtain ⟨_, -, ok⟩ := bind_ok.mp ok
  obtain ⟨_, -, ok⟩ := bind_ok.mp ok
  obtain ⟨_, -, ok⟩ := bind_ok.mp ok
  cases ok
  exact numbered.update (fun _ => rfl) fun _ => rfl

private theorem setChatLogPanel_ok {id : Text} {enabled : Bool} (ok : db.setChatLogPanel t id enabled = .ok after)
    (numbered : NumberedAs handed db) : NumberedAs handed after := by
  unfold setChatLogPanel at ok
  obtain ⟨_, -, ok⟩ := bind_ok.mp ok
  cases ok
  exact numbered.update (fun _ => rfl) fun _ => rfl

theorem NumberedAs.step (numbered : NumberedAs handed db) (op : ChatOp) :
    NumberedAs (fun id => handed id ++ op.handsOut db id) (op.commit db) := by
  cases op with
  | createChatLog t id title sourceTool siteId =>
    exact numbered.quiet _ rfl fun after ok => createChatLog_ok ok numbered
  | appendChatMessages t logId batch now =>
    cases ran : db.appendChatMessages t logId batch now with
    | error error =>
      have failed : (ChatOp.appendChatMessages t logId batch now).transact db = .error error := by
        rw [ChatOp.transact, ran]
        rfl
      unfold ChatOp.handsOut ChatOp.commit
      simpa only [failed, List.append_nil] using numbered
    | ok appended =>
      have committed : (ChatOp.appendChatMessages t logId batch now).transact db =
          .ok (appended.1.messages, appended.2) := by
        rw [ChatOp.transact, ran]
        rfl
      unfold ChatOp.handsOut ChatOp.commit
      simp only [committed]
      exact (append_ok ran).numbers numbered
  | deleteChatMessage t logId seq => exact numbered.quiet _ rfl fun after ok => deleteChatMessage_ok ok numbered
  | setPlanTier orgId tier =>
    refine numbered.quiet (.ok _) rfl fun after ok => ?_
    cases ok
    exact numbered.frame (fun log mem => ⟨log, mem, rfl, rfl, rfl⟩) (fun log mem => ⟨log, mem, rfl⟩)
      (List.Sublist.refl _)
  | setChatLogSite t id siteId => exact numbered.quiet _ rfl fun after ok => setChatLogSite_ok ok numbered
  | setChatLogPanel t id enabled => exact numbered.quiet _ rfl fun after ok => setChatLogPanel_ok ok numbered
  | setSites sites =>
    refine numbered.quiet (.ok _) rfl fun after ok => ?_
    cases ok
    exact numbered.frame (fun log mem => ⟨log, mem, rfl, rfl, rfl⟩) (fun log mem => ⟨log, mem, rfl⟩)
      (List.Sublist.refl _)

theorem NumberedAs.run (numbered : NumberedAs handed db) (ops : List ChatOp) :
    NumberedAs (fun id => handed id ++ handedOut id ops db) (runOps ops db) := by
  induction ops generalizing handed db with
  | nil => simpa only [handedOut, List.append_nil, runOps, List.foldl_nil] using numbered
  | cons op rest ih =>
    have later := ih (numbered.step op)
    simpa only [handedOut, List.append_assoc, runOps, List.foldl_cons] using later

/-- An organization without chat logs. -/
def ChatDb.start (planTiers : Text → Option Text) (sites : Table ChatSite.id) : ChatDb :=
  ⟨planTiers, sites, .empty, .empty⟩

theorem start_numbered (planTiers : Text → Option Text) (sites : Table ChatSite.id) :
    NumberedAs (fun _ => []) (ChatDb.start planTiers sites) := by
  refine ⟨?_, ?_, ?_, ?_, ?_, ?_, ?_⟩
  · intro log mem
    cases mem
  · intro id some
    exact absurd rfl some
  · intro log mem
    cases mem
  · exact fun id => List.Pairwise.nil
  · intro row mem
    cases mem
  · intro row mem
    cases mem
  · exact fun id => List.Pairwise.nil

/-! ### The invariant -/

/-- What an append does to its log: on a tier with a window it leaves exactly the
newest messages, on one with a cap no more than that, and if it is refused it
leaves everything as it was. -/
def AppendKeeps (db : ChatDb) (t : Tenant) (logId : Text) (batch : ChatBatch) (now : Instant) : Prop :=
  match db.appendChatMessages t logId batch now with
  | .error _ => (ChatOp.appendChatMessages t logId batch now).commit db = db
  | .ok (result, after) =>
    (∀ window, Cloud.retentionWindow (db.getPlanTier t.orgId) = some window →
      after.rowsOf logId = newestRows window.toNat (db.rowsOf logId ++ result.messages) ∧
        (after.rowsOf logId).length = min window.toNat ((db.rowsOf logId).length + result.messages.length)) ∧
    ∀ cap nextTier, Cloud.retentionWindow (db.getPlanTier t.orgId) = none →
      Cloud.chatMessagesCap (db.getPlanTier t.orgId) = some (cap, nextTier) →
        ((after.rowsOf logId).length : Int) ≤ cap

end Dropway.Api
