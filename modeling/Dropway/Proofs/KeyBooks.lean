import Dropway.Proofs.KeyRevocation

/-! The audit log of the API keys. Revoking twice, or at the same time, leaves one entry. -/

namespace Dropway.Api
open Lib
open ReadCommitted (Session State)

variable {config : KeyConfig} {store after : KeyStore} {input : KeyInput} {request later : KeyRequest}
  {effect : Effect KeyChange KeyLock} {session other : Session KeyChange KeyRequest} {row : APIKeyRow}

/-- What the log says was done to a key. -/
def KeyStore.entries (store : KeyStore) (action : KeyAction) (id : Text) : List KeyAudit :=
  store.auditLog.filter fun entry => entry.action = action ∧ entry.target = "api_key:".toList ++ id

/-- Making the key has one entry, and revoking it another, by the user who did. -/
structure Entered (store : KeyStore) (row : APIKeyRow) : Prop where
  created : store.entries .create row.id = [auditOf ⟨row.orgId, row.createdBy⟩ .create row]
  revoked : store.entries .revoke row.id = (row.revokedBy.map fun user => auditOf ⟨row.orgId, user⟩ .revoke row).toList
  both : row.revokedAt = none ↔ row.revokedBy = none

structure KeyLog (store : KeyStore) : Prop where
  distinct : (store.apiKeys.map (·.id)).Nodup
  entered : ∀ row ∈ store.apiKeys, Entered store row
  known : ∀ entry ∈ store.auditLog, ∃ row ∈ store.apiKeys, entry.target = "api_key:".toList ++ row.id

/-- What a request that has written something relies on. -/
def KeyRequest.Relies (store : KeyStore) : KeyRequest → Prop
  | .auditCreate t row _ => (row.orgId = t.orgId ∧ row.createdBy = t.userId) ∧
      (row.revokedAt = none ∧ row.revokedBy = none) ∧ ∀ other ∈ store.apiKeys, other.id ≠ row.id
  | .commitCreate t row _ => (row.orgId = t.orgId ∧ row.createdBy = t.userId) ∧
      (row.revokedAt = none ∧ row.revokedBy = none) ∧ ∀ other ∈ store.apiKeys, other.id ≠ row.id
  | .auditRevoke t row _ => row ∈ store.apiKeys ∧ row.orgId = t.orgId ∧ row.revokedAt = none
  | .commitRevoke t row _ => row ∈ store.apiKeys ∧ row.orgId = t.orgId ∧ row.revokedAt = none
  | _ => True

/-! ### What a commit does -/

private theorem entries_audit {action : KeyAction} {id : Text} {entry : KeyAudit} (changed : after.auditLog = store.auditLog ++ [entry]) :
    after.entries action id = store.entries action id ++
      if entry.action = action ∧ entry.target = "api_key:".toList ++ id then [entry] else [] := by
  rw [KeyStore.entries, changed, List.filter_append, List.filter_singleton]
  simp only [Bool.cond_decide, KeyStore.entries]

private theorem target_inj {one two : Text} (same : "api_key:".toList ++ one = "api_key:".toList ++ two) : one = two :=
  List.append_cancel_left same

private theorem Entered.same (entered : Entered store row) (created : after.entries .create row.id = store.entries .create row.id)
    (revoked : after.entries .revoke row.id = store.entries .revoke row.id) : Entered after row :=
  ⟨created.trans entered.created, revoked.trans entered.revoked, entered.both⟩

private theorem KeyLog.create (kept : KeyLog store) {t : Tenant} (whose : row.orgId = t.orgId ∧ row.createdBy = t.userId)
    (live : row.revokedAt = none ∧ row.revokedBy = none) (fresh : ∀ other ∈ store.apiKeys, other.id ≠ row.id)
    (keys : after.apiKeys = store.apiKeys ++ [row]) (log : after.auditLog = store.auditLog ++ [auditOf t .create row]) :
    KeyLog after := by
  have unknown (action : KeyAction) : store.entries action row.id = [] := by
    refine List.filter_eq_nil_iff.mpr fun entry mem about => ?_
    obtain ⟨old, inside, target⟩ := kept.known entry mem
    have about : entry.action = action ∧ entry.target = "api_key:".toList ++ row.id := of_decide_eq_true about
    exact fresh old inside (target_inj (target.symm.trans about.2))
  constructor
  · rw [keys, List.map_append, List.map_singleton]
    refine List.nodup_append.mpr ⟨kept.distinct, List.nodup_singleton _, ?_⟩
    intro id mem id' mem' same
    obtain ⟨old, inside, rfl⟩ := List.mem_map.mp mem
    rw [List.mem_singleton.mp mem'] at same
    exact fresh old inside same
  · intro other mem
    rw [keys] at mem
    rcases List.mem_append.mp mem with old | new
    · have apart : ¬ (auditOf t .create row).target = "api_key:".toList ++ other.id :=
        fun same => fresh other old (target_inj same).symm
      refine (kept.entered other old).same ?_ ?_
      · rw [entries_audit log, if_neg fun both => apart both.2, List.append_nil]
      · rw [entries_audit log, if_neg fun both => apart both.2, List.append_nil]
    · rw [List.mem_singleton.mp new]
      refine ⟨?_, ?_, iff_of_true live.1 live.2⟩
      · rw [entries_audit log, unknown, if_pos ⟨rfl, rfl⟩, whose.1, whose.2]
        rfl
      · have other : (auditOf t .create row).action ≠ .revoke := by
          intro same
          cases same
        rw [entries_audit log, unknown, if_neg fun both => other both.1, live.2]
        rfl
  · intro entry mem
    rw [log] at mem
    rw [keys]
    rcases List.mem_append.mp mem with old | new
    · obtain ⟨known, inside, target⟩ := kept.known entry old
      exact ⟨known, List.mem_append_left _ inside, target⟩
    · exact ⟨row, List.mem_append_right _ (List.mem_singleton_self _), by rw [List.mem_singleton.mp new]; rfl⟩

/-- What `RevokeAPIKey` makes of the rows. -/
private def revokeRow (id : Text) (revokedAt : Timestamptz) (user : Text) (row : APIKeyRow) : APIKeyRow :=
  if row.id = id then { row with revokedAt := some revokedAt, revokedBy := some user } else row

private theorem revokeRow_id {id : Text} {revokedAt : Timestamptz} {user : Text} :
    (revokeRow id revokedAt user row).id = row.id := by
  unfold revokeRow
  split
  · rfl
  · rfl

private theorem KeyLog.revoke (kept : KeyLog store) {t : Tenant} {revokedAt : Timestamptz} (mem : row ∈ store.apiKeys)
    (whose : row.orgId = t.orgId) (live : row.revokedAt = none)
    (keys : after.apiKeys = store.apiKeys.map (revokeRow row.id revokedAt t.userId))
    (log : after.auditLog = store.auditLog ++ [auditOf t .revoke row]) : KeyLog after := by
  have ids : after.apiKeys.map (·.id) = store.apiKeys.map (·.id) := by
    rw [keys, List.map_map]
    exact List.map_congr_left fun other _ => revokeRow_id
  constructor
  · rw [ids]
    exact kept.distinct
  · intro changed inside
    rw [keys] at inside
    obtain ⟨other, old, rfl⟩ := List.mem_map.mp inside
    have entered := kept.entered other old
    have noCreate : (auditOf t .revoke row).action ≠ .create := by
      intro same
      cases same
    by_cases same : other.id = row.id
    · obtain rfl : other = row := List.inj_on_of_nodup_map kept.distinct old mem same
      have unrevoked := entered.both.mp live
      rw [revokeRow, if_pos rfl]
      refine ⟨?_, ?_, iff_of_false (Option.some_ne_none _) (Option.some_ne_none _)⟩
      · rw [entries_audit log, if_neg fun both => noCreate both.1, List.append_nil]
        exact entered.created
      · rw [entries_audit log, entered.revoked, unrevoked, if_pos ⟨rfl, rfl⟩]
        simp only [Option.map_none, Option.toList_none, List.nil_append, Option.map_some, Option.toList_some, auditOf, whose]
    · have apart : ¬ (auditOf t .revoke row).target = "api_key:".toList ++ other.id :=
        fun target => same (target_inj target).symm
      rw [revokeRow, if_neg same]
      refine entered.same ?_ ?_
      · rw [entries_audit log, if_neg fun both => apart both.2, List.append_nil]
      · rw [entries_audit log, if_neg fun both => apart both.2, List.append_nil]
  · have knows {id : Text} (inside : id ∈ store.apiKeys.map (·.id)) : ∃ row ∈ after.apiKeys, id = row.id := by
      rw [← ids] at inside
      obtain ⟨changed, there, rfl⟩ := List.mem_map.mp inside
      exact ⟨changed, there, rfl⟩
    intro entry inside
    rw [log] at inside
    rcases List.mem_append.mp inside with old | new
    · obtain ⟨known, there, target⟩ := kept.known entry old
      obtain ⟨changed, there', same⟩ := knows (List.mem_map_of_mem there)
      exact ⟨changed, there', by rw [target, same]⟩
    · obtain ⟨changed, there', same⟩ := knows (List.mem_map_of_mem mem)
      exact ⟨changed, there', by rw [List.mem_singleton.mp new, ← same]; rfl⟩

private theorem KeyLog.same (kept : KeyLog store) (keys : after.apiKeys = store.apiKeys) (log : after.auditLog = store.auditLog) :
    KeyLog after := by
  have entries (action : KeyAction) (id : Text) : after.entries action id = store.entries action id := by
    rw [KeyStore.entries, log, KeyStore.entries]
  refine ⟨keys ▸ kept.distinct, fun row mem => ?_, fun entry mem => ?_⟩
  · exact (kept.entered row (keys ▸ mem)).same (entries _ _) (entries _ _)
  · rw [keys]
    exact kept.known entry (log ▸ mem)

/-! ### Steps -/

/-- What a step does to the rows, and the row that it had locked for that. -/
inductive Moved (store after : KeyStore) : Option Text → Prop
  | same (keys : after.apiKeys = store.apiKeys) : Moved store after none
  | inserted {row : APIKeyRow} (keys : after.apiKeys = store.apiKeys ++ [row]) : Moved store after (some row.id)
  | revoked {id : Text} {revokedAt : Timestamptz} {user : Text}
      (keys : after.apiKeys = store.apiKeys.map (revokeRow id revokedAt user)) : Moved store after (some id)

private theorem outside_same {change : OrgChange} :
    (change.apply store).apiKeys = store.apiKeys ∧ (change.apply store).auditLog = store.auditLog := by
  cases change with
  | orgMeta id org => exact ⟨rfl, rfl⟩
  | member orgId userId role => exact ⟨rfl, rfl⟩

private theorem step_log (kept : KeyLog store) (written : session.pending = session.position.written)
    (relies : session.position.Relies store)
    (stepped : (keyServer config).next input session.position ((keyServer config).view store session) = some (effect, later)) :
    KeyLog ((keyServer config).store store session.pending effect) ∧
      ∃ locked, Moved store ((keyServer config).store store session.pending effect) locked ∧
        ∀ id, locked = some id → KeyLock.row id ∈ (keyServer config).locked session := by
  have unmoved : Moved store store none := .same rfl
  have still : ∃ locked, Moved store store locked ∧
      ∀ id, locked = some id → KeyLock.row id ∈ (keyServer config).locked session :=
    ⟨none, unmoved, fun id none' => (by cases none')⟩
  obtain ⟨-, ⟨-, -, rfl⟩ | ⟨change, -, -, rfl⟩ | managed | admitted⟩ := step_cases written stepped
  · exact ⟨kept.same rfl rfl, none, .same rfl, fun id none' => (by cases none')⟩
  · obtain ⟨keys, log⟩ := @outside_same store change
    exact ⟨kept.same keys log, none, .same keys, fun id none' => (by cases none')⟩
  · rw [Server.locked, written]
    generalize session.position = request at managed relies
    cases managed with
    | @creates t row secret =>
      obtain ⟨whose, live, fresh⟩ := relies
      refine ⟨kept.create whose live fresh rfl rfl, some row.id, .inserted rfl, ?_⟩
      rintro id ⟨⟩
      exact List.mem_cons_self
    | seen => exact ⟨kept, none, unmoved, fun id none' => (by cases none')⟩
    | @revokes t row revokedAt =>
      obtain ⟨mem, whose, live⟩ := relies
      refine ⟨kept.revoke mem whose live rfl rfl, some row.id, .revoked rfl, ?_⟩
      rintro id ⟨⟩
      exact List.mem_cons_self
    | _ => exact ⟨kept, none, unmoved, fun id none' => (by cases none')⟩
  · generalize session.position = request at admitted
    cases admitted with
    | keeps asked => exact ⟨kept.same rfl rfl, none, .same rfl, fun id none' => (by cases none')⟩
    | _ => exact ⟨kept, still⟩

private theorem fresh_moved {locked : Option Text} {id : Text} (moved : Moved store after locked)
    (apart : ∀ other, locked = some other → other ≠ id) (fresh : ∀ other ∈ store.apiKeys, other.id ≠ id) :
    ∀ other ∈ after.apiKeys, other.id ≠ id := by
  intro other mem
  cases moved with
  | same keys => exact fresh other (keys ▸ mem)
  | inserted keys =>
    rw [keys] at mem
    rcases List.mem_append.mp mem with old | new
    · exact fresh other old
    · rw [List.mem_singleton.mp new]
      exact apart _ rfl
  | revoked keys =>
    rw [keys] at mem
    obtain ⟨old, inside, rfl⟩ := List.mem_map.mp mem
    rw [revokeRow_id]
    exact fresh old inside

private theorem live_moved {locked : Option Text} (moved : Moved store after locked)
    (apart : ∀ other, locked = some other → other ≠ row.id) (mem : row ∈ store.apiKeys) : row ∈ after.apiKeys := by
  cases moved with
  | same keys => exact keys ▸ mem
  | inserted keys =>
    rw [keys]
    exact List.mem_append_left _ mem
  | revoked keys =>
    rw [keys]
    exact List.mem_map.mpr ⟨row, mem, if_neg (apart _ rfl).symm⟩

private theorem relies_moved {locked : Option Text} (written : session.pending = session.position.written)
    (relies : session.position.Relies store) (moved : Moved store after locked)
    (apart : ∀ id, locked = some id → KeyLock.row id ∉ (keyServer config).locked session) : session.position.Relies after := by
  rw [Server.locked, written] at apart
  generalize session.position = request at relies apart
  cases request with
  | auditCreate t row secret =>
    obtain ⟨whose, live, fresh⟩ := relies
    refine ⟨whose, live, fresh_moved moved (fun other holds => ?_) fresh⟩
    rintro rfl
    exact apart _ holds List.mem_cons_self
  | commitCreate t row secret =>
    obtain ⟨whose, live, fresh⟩ := relies
    refine ⟨whose, live, fresh_moved moved (fun other holds => ?_) fresh⟩
    rintro rfl
    exact apart _ holds List.mem_cons_self
  | auditRevoke t row revokedAt =>
    obtain ⟨mem, rest⟩ := relies
    refine ⟨live_moved moved (fun other holds => ?_) mem, rest⟩
    rintro rfl
    exact apart _ holds List.mem_cons_self
  | commitRevoke t row revokedAt =>
    obtain ⟨mem, rest⟩ := relies
    refine ⟨live_moved moved (fun other holds => ?_) mem, rest⟩
    rintro rfl
    exact apart _ holds List.mem_cons_self
  | _ => trivial

private theorem step_relies (written : session.pending = session.position.written) (relies : session.position.Relies store)
    (stepped : (keyServer config).next input session.position ((keyServer config).view store session) = some (effect, later)) :
    later.Relies ((keyServer config).store store session.pending effect) := by
  obtain ⟨-, ⟨-, rfl, -⟩ | ⟨change, -, rfl, -⟩ | managed | admitted⟩ := step_cases written stepped
  · trivial
  · trivial
  · have same : session.position.written = [] → (keyServer config).view store session = store := by
      intro nothing
      rw [Server.view, written, nothing]
      rfl
    generalize session.position = request at managed relies same
    cases managed with
    | inserts whose live fresh =>
      rw [same rfl] at fresh
      exact ⟨whose, live, fresh⟩
    | updates mem whose live =>
      rw [same rfl] at mem
      exact ⟨mem, whose.2, live⟩
    | auditsCreate => exact relies
    | auditsRevoke => exact relies
    | _ => trivial
  · generalize session.position = request at admitted
    cases admitted with
    | _ => trivial

/-- Two transactions never have the row of one key, so each finds the log as it left it. -/
theorem log_discipline : (keyServer config).Discipline KeyLog
    (fun store session => session.pending = session.position.written ∧ session.position.Relies store)
    (fun _ _ => True) fun _ _ _ => True where
  arrives := by
    intro store position _ starts
    cases starts with
    | _ => exact ⟨rfl, trivial⟩
  store := by
    intro store session input effect later kept ok _ stepped
    exact (step_log kept ok.1 ok.2 stepped).1
  request := by
    intro store session input effect later _ ok _ stepped
    exact ⟨(step_cases ok.1 stepped).1, step_relies ok.1 ok.2 stepped⟩
  others := by
    intro store session other input effect later kept ok others _ _ _ exclusive stepped
    obtain ⟨-, locked, moved, holds⟩ := step_log kept others.1 others.2 stepped
    exact ⟨ok.1, relies_moved ok.1 ok.2 moved fun id row mem => exclusive _ mem (holds id row)⟩

/-- Whatever is made and revoked at the same time, making a key leaves one entry, and revoking it one more. -/
theorem keys_entered {start : KeyStore} {final : State KeyStore KeyChange KeyRequest} (begins : KeyLog start)
    (run : Relation.ReflTransGen (keyServer config).Step (Server.idle start) final) :
    ∀ row ∈ final.committed.apiKeys,
      final.committed.entries .create row.id = [auditOf ⟨row.orgId, row.createdBy⟩ .create row] ∧
      final.committed.entries .revoke row.id = (row.revokedBy.map fun user => auditOf ⟨row.orgId, user⟩ .revoke row).toList ∧
      (row.revokedAt = none ↔ row.revokedBy = none) := by
  have guarded : Relation.ReflTransGen ((keyServer config).Guarded fun _ _ => True) (Server.idle start) final :=
    Relation.ReflTransGen.mono (fun _ _ step => step.guarded fun _ _ _ => trivial) _ _ run
  have kept := (Server.Sound.guarded_run log_discipline begins guarded).store
  exact fun row mem => ⟨(kept.entered row mem).created, (kept.entered row mem).revoked, (kept.entered row mem).both⟩

private theorem unrevoked_log {now : Instant} {orgMeta : Text → Option OrgKeys} {member : Option (Text → Text → Option Text)}
    {caches : Nat → Mcp.KeyCache} (created : row.revokedAt = none ∧ row.revokedBy = none) :
    KeyLog ⟨now, [row], orgMeta, member, [auditOf ⟨row.orgId, row.createdBy⟩ .create row], caches⟩ where
  distinct := List.nodup_singleton _
  entered := by
    intro other mem
    rw [List.mem_singleton.mp mem]
    have here : decide (KeyAction.create = .create ∧ "api_key:".toList ++ row.id = "api_key:".toList ++ row.id) = true :=
      decide_eq_true ⟨rfl, rfl⟩
    refine ⟨List.filter_cons_of_pos here, ?_, iff_of_true created.1 created.2⟩
    rw [created.2]
    exact List.filter_cons_of_neg (by intro same; cases (of_decide_eq_true same).1)
  known := by
    intro entry mem
    exact ⟨row, List.mem_singleton_self _, by rw [List.mem_singleton.mp mem]; rfl⟩

/-- A key that is used, revoked and used again. -/
theorem ci_key_entered :
    afterMinute.committed.entries .create ciKey.id = [auditOf ciOwner .create (ciKey.revokedRow ciOwner (.ofTime 0))] ∧
      afterMinute.committed.entries .revoke ciKey.id = [auditOf ciOwner .revoke (ciKey.revokedRow ciOwner (.ofTime 0))] := by
  have listed : afterMinute.committed.apiKeys = [ciKey.revokedRow ciOwner (.ofTime 0)] := rfl
  have mem : ciKey.revokedRow ciOwner (.ofTime 0) ∈ afterMinute.committed.apiKeys := by
    rw [listed]
    exact List.mem_singleton_self _
  obtain ⟨created, revoked, -⟩ := keys_entered (unrevoked_log ⟨rfl, rfl⟩) ci_run _ mem
  exact ⟨created, revoked⟩

end Dropway.Api
