import Dropway.Api.ChatPages
import Dropway.Proofs.ChatNumbers

/-! Messages by number. A page after page reads every message once; a number that
is larger than 32 bits deletes another message. -/

namespace Dropway.Api
open Lib Lib.Outcome
open Strconv (atoi itoa numeral atoi_ok atoi_itoa numeral_itoa)
open ChatDb

/-! ### The numbers that are stored -/

/-- The tables that requests have made of an organization without chat logs. -/
inductive ChatDb.Reached : ChatDb → Prop
  | start (planTiers : Text → Option Text) (sites : Table ChatSite.id) : Reached (.start planTiers sites)
  | op {db : ChatDb} (op : ChatOp) (reached : Reached db) : Reached (op.commit db)
  | deleteChatLog {db after : ChatDb} (t : Tenant) (id : Text) (reached : Reached db)
      (ok : db.deleteChatLog t id = .ok after) : Reached after

/-- The numbers that an int4 column has been given, counting from one. -/
structure ChatDb.Counted (db : ChatDb) : Prop where
  next : ∀ log ∈ db.logs.rows, 1 ≤ log.nextSeq
  rows : ∀ row ∈ db.messages.rows, 1 ≤ row.seq ∧ row.seq < 2 ^ 31

variable {db after : ChatDb} {t : Tenant} {logId : Text} {access : ChatAccess}

private theorem ChatDb.Counted.frame (counted : db.Counted) (logs : ∀ log ∈ after.logs.rows, ∃ old ∈ db.logs.rows,
    old.nextSeq ≤ log.nextSeq) (rows : ∀ row ∈ after.messages.rows, row ∈ db.messages.rows) : after.Counted := by
  refine ⟨fun log mem => ?_, fun row mem => counted.rows row (rows row mem)⟩
  obtain ⟨old, oldMem, grows⟩ := logs log mem
  exact (counted.next old oldMem).trans grows

private theorem update_grows {p : ChatLogRow → Bool} {change : ChatLogRow → ChatLogRow}
    (keeps : ∀ row, (change row).id = row.id) (grows : ∀ row, row.nextSeq ≤ (change row).nextSeq) :
    ∀ log ∈ (db.logs.update p change keeps).rows, ∃ old ∈ db.logs.rows, old.nextSeq ≤ log.nextSeq := by
  intro log mem
  obtain ⟨old, oldMem, rfl⟩ := Table.mem_update.mp mem
  refine ⟨old, oldMem, ?_⟩
  split
  · exact grows old
  · exact le_rfl

private theorem same_logs : ∀ log ∈ db.logs.rows, ∃ old ∈ db.logs.rows, old.nextSeq ≤ log.nextSeq :=
  fun log mem => ⟨log, mem, le_rfl⟩

private theorem append_counted {batch : ChatBatch} {now : Instant} {result : AppendChatResult} (counted : db.Counted)
    (ok : db.appendChatMessages t logId batch now = .ok (result, after)) : after.Counted := by
  have appended := append_ok ok
  refine ⟨fun log mem => ?_, fun row mem => ?_⟩
  · rw [appended.logs] at mem
    obtain ⟨old, oldMem, grows⟩ := update_grows (advance_id _) (fun row => by
      rw [advance, count_int32]
      change row.nextSeq ≤ row.nextSeq + _
      omega) log mem
    exact (counted.next old oldMem).trans grows
  · rcases List.mem_append.mp (appended.messages.subset mem) with old | new
    · exact counted.rows row old
    · obtain ⟨log, logMem, -, -, most, versionId, now, rows⟩ := appended.log
      rw [count_int32] at most
      have seqs : (batchRows t logId versionId now log.nextSeq batch.messages).map ChatMessageRow.seq = _ :=
        batchRows_seqs (counted.next log logMem) most
      rw [← rows] at seqs
      obtain ⟨i, inside, number⟩ := List.mem_map.mp (seqs ▸ List.mem_map_of_mem new)
      have first := counted.next log logMem
      have small := List.mem_range.mp inside
      omega

/-- A transaction that appends nothing. -/
private theorem quiet_counted {op : ChatOp} (counted : db.Counted) (committed : Except ChatError ChatDb)
    (runs : op.transact db = committed.map fun after => ([], after))
    (keeps : ∀ after, committed = .ok after → after.Counted) : (op.commit db).Counted := by
  unfold ChatOp.commit
  rw [runs]
  cases committed with
  | error error => exact counted
  | ok after => exact keeps after rfl

private theorem insert_counted {log : ChatLogRow} {free : db.logs.get? log.id = none} (counted : db.Counted)
    (first : 1 ≤ log.nextSeq) : ChatDb.Counted { db with logs := db.logs.insert log free } := by
  have rows (row : ChatLogRow) : row ∈ (db.logs.insert log free).rows ↔ row ∈ db.logs.rows ∨ row = log :=
    Table.mem_insert
  refine ⟨fun row mem => ?_, counted.rows⟩
  rcases (rows row).mp mem with old | rfl
  · exact counted.next row old
  · exact first

private theorem commit_counted (counted : db.Counted) (op : ChatOp) : (op.commit db).Counted := by
  cases op with
  | createChatLog t id title sourceTool siteId =>
    refine quiet_counted counted _ rfl fun after ok => ?_
    unfold createChatLog at ok
    obtain ⟨_, -, ok⟩ := bind_ok.mp ok
    obtain ⟨_, -, ok⟩ := bind_ok.mp ok
    split at ok
    · cases ok
    · cases ok
      exact insert_counted counted le_rfl
  | appendChatMessages t logId batch now =>
    cases ran : db.appendChatMessages t logId batch now with
    | error error =>
      have failed : (ChatOp.appendChatMessages t logId batch now).transact db = .error error := by
        rw [ChatOp.transact, ran]
        rfl
      simpa only [ChatOp.commit, failed] using counted
    | ok appended =>
      have committed : (ChatOp.appendChatMessages t logId batch now).transact db =
          .ok (appended.1.messages, appended.2) := by
        rw [ChatOp.transact, ran]
        rfl
      simpa only [ChatOp.commit, committed] using append_counted counted ran
  | deleteChatMessage t logId seq =>
    refine quiet_counted counted _ rfl fun after ok => ?_
    unfold deleteChatMessage at ok
    obtain ⟨_, -, ok⟩ := bind_ok.mp ok
    obtain ⟨_, -, ok⟩ := bind_ok.mp ok
    cases ok
    exact counted.frame same_logs fun row mem => (Table.mem_delete.mp mem).1
  | setPlanTier orgId tier =>
    refine quiet_counted counted (.ok _) rfl fun after ok => ?_
    cases ok
    exact ⟨counted.next, counted.rows⟩
  | setChatLogSite t id siteId =>
    refine quiet_counted counted _ rfl fun after ok => ?_
    unfold setChatLogSite at ok
    obtain ⟨_, -, ok⟩ := bind_ok.mp ok
    obtain ⟨_, -, ok⟩ := bind_ok.mp ok
    obtain ⟨_, -, ok⟩ := bind_ok.mp ok
    cases ok
    exact counted.frame (update_grows (attach_id siteId) fun _ => le_rfl) fun _ mem => mem
  | setChatLogPanel t id enabled =>
    refine quiet_counted counted _ rfl fun after ok => ?_
    unfold setChatLogPanel at ok
    obtain ⟨_, -, ok⟩ := bind_ok.mp ok
    cases ok
    exact counted.frame (update_grows (showPanel_id enabled) fun _ => le_rfl) fun _ mem => mem
  | setSites sites =>
    refine quiet_counted counted (.ok _) rfl fun after ok => ?_
    cases ok
    exact ⟨counted.next, counted.rows⟩

/-- Numbers are given out from one on, and none is larger than the column takes. -/
theorem ChatDb.Reached.counted (reached : Reached db) : db.Counted := by
  induction reached with
  | start planTiers sites => exact ⟨fun _ mem => absurd mem List.not_mem_nil, fun _ mem => absurd mem List.not_mem_nil⟩
  | op op _ ih => exact commit_counted ih op
  | deleteChatLog t id _ ok ih =>
    unfold ChatDb.deleteChatLog at ok
    obtain ⟨_, -, ok⟩ := bind_ok.mp ok
    cases ok
    exact ih.frame (fun log mem => ⟨log, (Table.mem_delete.mp mem).1, le_rfl⟩) fun row mem => (Table.mem_delete.mp mem).1

/-! ### Pages -/

/-- The messages of the log, each once, in the order of their numbers. -/
def ChatDb.InOrder (db : ChatDb) (t : Tenant) (logId : Text) (visited : List ChatMessageRow) : Prop :=
  visited.Perm (db.messagesOf logId t.orgId) ∧ (visited.map ChatMessageRow.seq).Pairwise (· < ·)

/-- The messages after a number, in order. -/
private def laterRows (db : ChatDb) (t : Tenant) (logId : Text) (afterSeq : Int) : List ChatMessageRow :=
  ((db.messagesOf logId t.orgId).filter fun row => decide (afterSeq < row.seq)).mergeSort
    fun one two => one.seq ≤ two.seq

private theorem messagesOf_nodup : ((db.messagesOf logId t.orgId).map ChatMessageRow.seq).Nodup := by
  have places : ((db.messagesOf logId t.orgId).map ChatMessageRow.place).Nodup :=
    db.messages.nodup.sublist (List.filter_sublist.map _)
  have shape : (db.messagesOf logId t.orgId).map ChatMessageRow.place =
      ((db.messagesOf logId t.orgId).map ChatMessageRow.seq).map fun seq => (logId, seq) := by
    rw [List.map_map]
    apply List.map_congr_left
    intro row mem
    have own := (List.mem_filter.mp mem).2
    rw [decide_eq_true_eq] at own
    exact Prod.ext own.1 rfl
  rw [shape] at places
  exact places.of_map

private theorem laterRows_perm (db : ChatDb) (t : Tenant) (logId : Text) (afterSeq : Int) :
    (laterRows db t logId afterSeq).Perm
      ((db.messagesOf logId t.orgId).filter fun row => decide (afterSeq < row.seq)) :=
  List.mergeSort_perm _ _

private theorem laterRows_increasing (db : ChatDb) (t : Tenant) (logId : Text) (afterSeq : Int) :
    ((laterRows db t logId afterSeq).map ChatMessageRow.seq).Pairwise (· < ·) := by
  have sorted : (laterRows db t logId afterSeq).Pairwise fun one two => decide (one.seq ≤ two.seq) = true :=
    List.pairwise_mergeSort
      (fun a b c first second => decide_eq_true ((of_decide_eq_true first).trans (of_decide_eq_true second)))
      (fun a b => by simpa using le_total a.seq b.seq) _
  have nodup : ((laterRows db t logId afterSeq).map ChatMessageRow.seq).Nodup :=
    ((laterRows_perm db t logId afterSeq).map _).nodup_iff.mpr
      (messagesOf_nodup.sublist (List.filter_sublist.map _))
  rw [List.pairwise_map]
  rw [List.nodup_iff_pairwise_ne, List.pairwise_map] at nodup
  exact sorted.imp₂ (fun _ _ le differ => lt_of_le_of_ne (of_decide_eq_true le) differ) nodup

private theorem laterRows_filter {afterSeq last : Int} (later : afterSeq ≤ last) :
    laterRows db t logId last = (laterRows db t logId afterSeq).filter fun row => decide (last < row.seq) := by
  have perm := (laterRows_perm db t logId afterSeq).filter fun row => decide (last < row.seq)
  have both (row : ChatMessageRow) : (decide (afterSeq < row.seq) && decide (last < row.seq)) = decide (last < row.seq) := by
    by_cases less : last < row.seq
    · simp [less, lt_of_le_of_lt later less]
    · simp [less]
  simp only [List.filter_filter, Bool.and_comm, both] at perm
  have sorted := laterRows_increasing db t logId last
  have kept := (laterRows_increasing db t logId afterSeq)
  rw [List.pairwise_map] at sorted kept
  refine List.Perm.eq_of_pairwise ?_ sorted (kept.sublist List.filter_sublist)
    ((laterRows_perm db t logId last).trans perm.symm)
  intro one two _ _ less more
  exact absurd more (not_lt.mpr less.le)

/-- After the last row of a page come the rows that it left out. -/
private theorem filter_after {first rest : List ChatMessageRow} {last : ChatMessageRow}
    (increasing : ((first ++ [last] ++ rest).map ChatMessageRow.seq).Pairwise (· < ·)) :
    (first ++ [last] ++ rest).filter (fun row => decide (last.seq < row.seq)) = rest := by
  rw [List.pairwise_map, List.pairwise_append] at increasing
  obtain ⟨page, -, apart⟩ := increasing
  have gone : (first ++ [last]).filter (fun row => decide (last.seq < row.seq)) = [] := by
    rw [List.filter_eq_nil_iff]
    intro row mem less
    have above := of_decide_eq_true less
    rcases List.mem_append.mp mem with earlier | same
    · have below := (List.pairwise_append.mp page).2.2 row earlier last (List.mem_singleton_self _)
      exact lt_asymm above below
    · rw [List.mem_singleton.mp same] at above
      exact lt_irrefl _ above
  have left : rest.filter (fun row => decide (last.seq < row.seq)) = rest := by
    rw [List.filter_eq_self]
    intro row mem
    exact decide_eq_true (apart last (List.mem_append_right _ (List.mem_singleton_self _)) row mem)
  rw [List.filter_append, gone, left, List.nil_append]

/-- Any limit asks for a page of at least one row. -/
private theorem page_ok {log : ChatLogRow} (enabled : access.enabled = true)
    (found : db.getChatLogTx t logId = .ok log) (limit : Text) : ∃ size : Nat, 0 < size ∧
      ∀ n : Int, -2 ^ 31 ≤ n → n < 2 ^ 31 →
        access.listChatMessages db t logId (itoa n) limit = .ok ((laterRows db t logId n).take size) := by
  let asked := int32 (atoi limit).1
  refine ⟨(if asked ≤ 0 ∨ 1000 < asked then 500 else asked).toNat, ?_, fun n least most => ?_⟩
  · split <;> omega
  · have read := atoi_itoa (n := n) (by omega) (by omega)
    unfold ChatAccess.listChatMessages ChatDb.listAfter
    rw [read, int32_eq (by omega) most, found, enabled]
    rfl

/-- The pages from a number on are all rows after it. -/
private theorem visit_rows {log : ChatLogRow} (counted : db.Counted) (enabled : access.enabled = true)
    (found : db.getChatLogTx t logId = .ok log) (limit : Text) {steps : Nat} {n : Int} (least : -2 ^ 31 ≤ n)
    (most : n < 2 ^ 31) (enough : (laterRows db t logId n).length < steps) :
    access.visit db t logId limit steps (itoa n) = some (laterRows db t logId n) := by
  obtain ⟨size, some_row, pages⟩ := page_ok enabled found limit
  induction steps generalizing n with
  | zero => omega
  | succ steps ih =>
    unfold ChatAccess.visit
    rw [pages n least most]
    have whole := List.take_append_drop size (laterRows db t logId n)
    cases ended : ((laterRows db t logId n).take size).getLast? with
    | none =>
      have none_left : laterRows db t logId n = [] := by
        rw [List.getLast?_eq_none_iff, List.take_eq_nil_iff] at ended
        exact ended.resolve_left some_row.ne'
      simp only [none_left, List.take_nil, List.getLast?_nil]
    | some last =>
      obtain ⟨first, page⟩ := List.getLast?_eq_some_iff.mp ended
      have mem : last ∈ laterRows db t logId n := List.mem_of_mem_take (List.mem_of_getLast? ended)
      obtain ⟨stored, after_n⟩ := List.mem_filter.mp ((laterRows_perm db t logId n).mem_iff.mp mem)
      have above := of_decide_eq_true after_n
      have small := (counted.rows last (List.mem_filter.mp stored).1).2
      have increasing := laterRows_increasing db t logId n
      rw [← whole, page] at increasing
      have rest : laterRows db t logId last.seq = (laterRows db t logId n).drop size := by
        rw [laterRows_filter above.le]
        conv_lhs => rw [← whole, page]
        exact filter_after increasing
      have filled := List.length_pos_of_mem mem
      have shorter : (laterRows db t logId last.seq).length < steps := by
        rw [rest, List.length_drop]
        omega
      simp only [ended]
      rw [ih (by omega) small shorter, rest, Option.map_some, whole]

/-- Reading page after page ends, and has given every message once. -/
private theorem visits_all {log : ChatLogRow} (counted : db.Counted) (enabled : access.enabled = true)
    (found : db.getChatLogTx t logId = .ok log) (limit : Text) :
    ∃ steps visited, access.visit db t logId limit steps (itoa 0) = some visited ∧ db.InOrder t logId visited := by
  refine ⟨_, _, visit_rows counted enabled found limit (by omega) (by omega) (Nat.lt_succ_self _), ?_, ?_⟩
  · refine (laterRows_perm db t logId 0).trans (List.Perm.of_eq ?_)
    rw [List.filter_eq_self]
    intro row mem
    have first := (counted.rows row (List.mem_filter.mp mem).1).1
    exact decide_eq_true (by omega)
  · exact laterRows_increasing db t logId 0

/-! ### Deletions -/

/-- The messages that a text addresses. -/
def Addressed (t : Tenant) (logId seq : Text) (row : ChatMessageRow) : Prop :=
  row.chatLogId = logId ∧ row.orgId = t.orgId ∧ numeral seq = some row.seq

instance (seq : Text) : DecidablePred (Addressed t logId seq) := fun _ => inferInstanceAs (Decidable (_ ∧ _))

/-- The addressed message goes, and everything else stays. -/
structure DeletesExactly (db : ChatDb) (t : Tenant) (logId seq : Text) (after : ChatDb) : Prop where
  messages : ∀ row, row ∈ after.messages.rows ↔ row ∈ db.messages.rows ∧ ¬ Addressed t logId seq row
  logs : after.logs = db.logs
  sites : after.sites = db.sites
  planTiers : after.planTiers = db.planTiers

/-- A number of 64 bits that is not one of 32 bits, but becomes that of a stored message. -/
def Narrowed (db : ChatDb) (t : Tenant) (logId seq : Text) : Prop :=
  ∃ n, numeral seq = some n ∧ -2 ^ 63 ≤ n ∧ n < 2 ^ 63 ∧ (n < -2 ^ 31 ∨ 2 ^ 31 ≤ n) ∧
    ∃ row ∈ db.messagesOf logId t.orgId, row.seq = n.bmod (2 ^ 32)

private theorem message_listed {row : ChatMessageRow} : row ∈ db.messagesOf logId t.orgId ↔
    row ∈ db.messages.rows ∧ row.chatLogId = logId ∧ row.orgId = t.orgId := by
  unfold messagesOf Table.filter
  rw [List.mem_filter, decide_eq_true_eq]

private theorem unmoved {seq : Text} (none : ∀ row ∈ db.messagesOf logId t.orgId, numeral seq ≠ some row.seq) :
    DeletesExactly db t logId seq db := by
  refine ⟨fun row => ⟨fun mem => ⟨mem, fun addressed => ?_⟩, And.left⟩, rfl, rfl, rfl⟩
  exact none row (message_listed.mpr ⟨mem, addressed.1, addressed.2.1⟩) addressed.2.2

/-- What the handler does for a caller who may delete. -/
private theorem delete_left {log : ChatLogRow} {seq : Text} (enabled : access.enabled = true)
    (found : db.getChatLogTx t logId = .ok log) (mayEdit : access.mayEdit log = true) {n : Int}
    (read : atoi seq = (n, none)) : db.left (access.deleteChatMessage db t logId seq) =
      db.left ((db.deleteChatMessage t logId (int32 n)).mapError .store) := by
  simp only [ChatAccess.deleteChatMessage, read, enabled, found, mayEdit, require, if_true, Except.mapError, bind,
    Except.bind]

/-- The store deletes the message of a number, when there is one. -/
private theorem delete_store {log : ChatLogRow} (found : db.getChatLogTx t logId = .ok log) (seq : Int) :
    db.left ((db.deleteChatMessage t logId seq).mapError .store) =
      if ∃ row ∈ db.messagesOf logId t.orgId, row.seq = seq then
        { db with messages := db.messages.delete fun row =>
            decide (row.chatLogId = logId ∧ row.seq = seq ∧ row.orgId = t.orgId) }
      else db := by
  have listed : (db.messages.rows.any fun row =>
      decide (row.chatLogId = logId ∧ row.seq = seq ∧ row.orgId = t.orgId)) = true ↔
        ∃ row ∈ db.messagesOf logId t.orgId, row.seq = seq := by
    rw [List.any_eq_true]
    constructor
    · intro any
      obtain ⟨row, mem, chosen⟩ := any
      obtain ⟨own, numbered, org⟩ := of_decide_eq_true chosen
      exact ⟨row, message_listed.mpr ⟨mem, own, org⟩, numbered⟩
    · intro any
      obtain ⟨row, inside, numbered⟩ := any
      obtain ⟨mem, own, org⟩ := message_listed.mp inside
      exact ⟨row, mem, decide_eq_true ⟨own, numbered, org⟩⟩
  unfold ChatDb.deleteChatMessage
  rw [found]
  by_cases here : ∃ row ∈ db.messagesOf logId t.orgId, row.seq = seq
  · rw [if_pos here]
    simp only [require, if_pos (listed.mpr here), bind, Except.bind, pure, Except.pure, Except.mapError, ChatDb.left]
  · rw [if_neg here]
    simp only [require, if_neg fun any => here (listed.mp any), bind, Except.bind, Except.mapError, ChatDb.left]

private theorem deletes_number {log : ChatLogRow} {seq : Text} {n : Int} (found : db.getChatLogTx t logId = .ok log)
    (denotes : numeral seq = some n) :
    DeletesExactly db t logId seq (db.left ((db.deleteChatMessage t logId n).mapError .store)) := by
  rw [delete_store found]
  split
  · refine ⟨fun row => ?_, rfl, rfl, rfl⟩
    rw [Table.mem_delete, decide_eq_false_iff_not]
    refine and_congr_right fun _ => not_congr ?_
    unfold Addressed
    rw [denotes, Option.some_inj, eq_comm (a := n)]
    exact and_congr_right fun _ => and_comm
  · rename_i none
    refine unmoved fun row mem same => none ⟨row, mem, ?_⟩
    rw [denotes] at same
    exact (Option.some.inj same).symm

private theorem stored_range (counted : db.Counted) {row : ChatMessageRow} (mem : row ∈ db.messagesOf logId t.orgId) :
    1 ≤ row.seq ∧ row.seq < 2 ^ 31 :=
  counted.rows row (message_listed.mp mem).1

/-- A text that Atoi refuses addresses no message. -/
private theorem refused_unmoved {seq : Text} (counted : db.Counted) (t : Tenant) (logId : Text) (refused : (atoi seq).2 ≠ none) :
    DeletesExactly db t logId seq db ∧ ¬ Narrowed db t logId seq := by
  refine ⟨unmoved fun row mem same => refused ?_, fun narrowed => refused ?_⟩
  · obtain ⟨least, most⟩ := stored_range counted mem
    rw [atoi_ok.mpr ⟨same, by omega, by omega⟩]
  · obtain ⟨n, denotes, least, most, -⟩ := narrowed
    rw [atoi_ok.mpr ⟨denotes, least, most⟩]

/-- What the store is asked to delete is what was addressed, unless the number was narrowed to
that of a message. -/
private theorem store_iff {log : ChatLogRow} {seq : Text} {n : Int} (counted : db.Counted)
    (found : db.getChatLogTx t logId = .ok log) (read : atoi seq = (n, none)) :
    DeletesExactly db t logId seq (db.left ((db.deleteChatMessage t logId (int32 n)).mapError .store)) ↔
      ¬ Narrowed db t logId seq := by
  obtain ⟨denotes, least, most⟩ := atoi_ok.mp read
  by_cases small : -2 ^ 31 ≤ n ∧ n < 2 ^ 31
  · rw [int32_eq small.1 small.2]
    refine iff_of_true (deletes_number found denotes) fun narrowed => ?_
    obtain ⟨other, same, -, -, large, -⟩ := narrowed
    cases denotes.symm.trans same
    omega
  · have unaddressed : ∀ row ∈ db.messagesOf logId t.orgId, numeral seq ≠ some row.seq := by
      intro row mem same
      obtain ⟨first, last⟩ := stored_range counted mem
      cases denotes.symm.trans same
      omega
    rw [delete_store found]
    by_cases here : ∃ row ∈ db.messagesOf logId t.orgId, row.seq = int32 n
    · rw [if_pos here]
      refine iff_of_false (fun exactly => ?_) (fun fine => fine ⟨n, denotes, least, most, by omega, here⟩)
      obtain ⟨row, mem, numbered⟩ := here
      obtain ⟨stored, own, org⟩ := message_listed.mp mem
      obtain ⟨-, kept⟩ := Table.mem_delete.mp ((exactly.messages row).mpr
        ⟨stored, fun addressed => unaddressed row mem addressed.2.2⟩)
      exact of_decide_eq_false kept ⟨own, numbered, org⟩
    · rw [if_neg here]
      refine iff_of_true (unmoved unaddressed) fun narrowed => ?_
      obtain ⟨other, same, -, -, -, mem⟩ := narrowed
      cases denotes.symm.trans same
      exact here mem

private theorem handler_iff {log : ChatLogRow} (counted : db.Counted) (enabled : access.enabled = true)
    (found : db.getChatLogTx t logId = .ok log) (mayEdit : access.mayEdit log = true) (seq : Text) :
    DeletesExactly db t logId seq (db.left (access.deleteChatMessage db t logId seq)) ↔ ¬ Narrowed db t logId seq := by
  by_cases read : (atoi seq).2 = none
  · have value : atoi seq = ((atoi seq).1, none) := Prod.ext rfl read
    rw [delete_left enabled found mayEdit value]
    exact store_iff counted found value
  · obtain ⟨unmoved, fine⟩ := refused_unmoved counted t logId read
    refine iff_of_true ?_ fine
    simp only [ChatAccess.deleteChatMessage, enabled, require, if_true, if_neg read, bind, Except.bind, ChatDb.left]
    exact unmoved

private theorem int32_range (n : Int) : -2 ^ 31 ≤ int32 n ∧ int32 n < 2 ^ 31 := by
  have least : -((2 ^ 32 : Nat) / 2 : Int) ≤ n.bmod (2 ^ 32) := Int.le_bmod (by decide)
  have most : n.bmod (2 ^ 32) < ((2 ^ 32 : Nat) + 1 : Int) / 2 := Int.bmod_lt (by decide)
  unfold int32
  omega

/-- The command deletes what the handler would have deleted. -/
private theorem cli_iff {log : ChatLogRow} (counted : db.Counted) (enabled : access.enabled = true)
    (found : db.getChatLogTx t logId = .ok log) (mayEdit : access.mayEdit log = true) (seq : Text) :
    DeletesExactly db t logId seq (db.left (access.cliDeleteMessage db t logId seq)) ↔ ¬ Narrowed db t logId seq := by
  by_cases read : (atoi seq).2 = none
  · have value : atoi seq = ((atoi seq).1, none) := Prod.ext rfl read
    obtain ⟨least, most⟩ := int32_range (atoi seq).1
    have sent := atoi_itoa (n := int32 (atoi seq).1) (by omega) (by omega)
    have same : access.cliDeleteMessage db t logId seq = access.deleteChatMessage db t logId (itoa (int32 (atoi seq).1)) := by
      simp only [ChatAccess.cliDeleteMessage, read, require, if_true, bind, Except.bind]
    rw [same, delete_left enabled found mayEdit sent, int32_eq least most]
    exact store_iff counted found value
  · obtain ⟨unmoved, fine⟩ := refused_unmoved counted t logId read
    refine iff_of_true ?_ fine
    simp only [ChatAccess.cliDeleteMessage, require, if_neg read, bind, Except.bind, ChatDb.left]
    exact unmoved

/-- Messages are addressed by their numbers, and paged through by them, unless a number is
narrowed to that of another message. -/
theorem addressing_exact {log : ChatLogRow} (reached : db.Reached) (enabled : access.enabled = true)
    (found : db.getChatLogTx t logId = .ok log) (mayEdit : access.mayEdit log = true) (seq limit : Text) :
    (DeletesExactly db t logId seq (db.left (access.deleteChatMessage db t logId seq)) ∧
      DeletesExactly db t logId seq (db.left (access.cliDeleteMessage db t logId seq)) ∧
      ∃ steps visited, access.visit db t logId limit steps (itoa 0) = some visited ∧ db.InOrder t logId visited) ↔
      ¬ Narrowed db t logId seq := by
  rw [handler_iff reached.counted enabled found mayEdit, cli_iff reached.counted enabled found mayEdit,
    and_iff_left (visits_all reached.counted enabled found limit), and_self]

/-! A log of one message, whose number is 1. -/

def author : Tenant := ⟨['o'], ['u']⟩

def oneMessage : ChatDb :=
  (ChatOp.appendChatMessages author ['l'] ⟨[⟨"chat".toList, "user".toList, ['h', 'i'], none⟩], by decide⟩ 0).commit
    ((ChatOp.createChatLog author ['l'] [] [] none).commit (.start (fun _ => some Cloud.tierPro) .empty))

theorem oneMessage_reached : oneMessage.Reached := .op _ (.op _ (.start _ _))

def everyone : ChatAccess := ⟨true, fun _ => true⟩

theorem first_message_addressed :
    (DeletesExactly oneMessage author ['l'] ['1'] (oneMessage.left (everyone.deleteChatMessage oneMessage author ['l'] ['1'])) ∧
      DeletesExactly oneMessage author ['l'] ['1'] (oneMessage.left (everyone.cliDeleteMessage oneMessage author ['l'] ['1'])) ∧
      ∃ steps visited, everyone.visit oneMessage author ['l'] ['0'] steps (itoa 0) = some visited ∧
        oneMessage.InOrder author ['l'] visited) := by
  have found : ∃ log, oneMessage.getChatLogTx author ['l'] = .ok log := ⟨_, rfl⟩
  obtain ⟨log, found⟩ := found
  refine (addressing_exact oneMessage_reached rfl found rfl ['1'] ['0']).mpr fun narrowed => ?_
  obtain ⟨n, denotes, -, -, large, -⟩ := narrowed
  have one : numeral ['1'] = some 1 := by decide
  cases one.symm.trans denotes
  omega

/-- 2^32 + 1 deletes the message with the number 1. -/
theorem wrong_message_deleted : ∃ (db : ChatDb) (row : ChatMessageRow), db.Reached ∧ row ∈ db.messages.rows ∧
    numeral "4294967297".toList = some 4294967297 ∧ row.seq = 1 ∧
    row ∉ (db.left (everyone.deleteChatMessage db author ['l'] "4294967297".toList)).messages.rows := by
  refine ⟨oneMessage, ⟨['o'], ['l'], 1, none, ['u'], "user".toList, "chat".toList, ['h', 'i'], none, 0⟩,
    oneMessage_reached, ?_, ?_, rfl, ?_⟩ <;> decide +kernel

end Dropway.Api
