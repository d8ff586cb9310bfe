import Dropway.Projection.Rebuild

/-! The bulk rebuild ends with the routes it is given, in the KV namespace as in
memory, and a rebuild that fails on the way takes no host of theirs off the edge. -/

namespace Dropway.Projection
open Lib Attempt

def RouteMap.Valid (routes : RouteMap) : Prop := ∀ entry ∈ routes.entries, entry.2.validate = .ok ()

/-- The denylist and the org flags are as they were. -/
def Untouched (before after : Namespace) : Prop :=
  ∀ key, ascii "revoked:" <+: key ∨ ascii "org_status:" <+: key → after key = before key

/-! ### Updates one after the other -/

section Updates

variable {α β κ : Type} [DecidableEq κ] (key : α → κ) (value : α → β)

theorem updates_other {items : List α} {k : κ} (other : k ∉ items.map key) (start : κ → Option β) :
    items.foldl (fun map item => Function.update map (key item) (some (value item))) start k = start k := by
  induction items generalizing start with
  | nil => rfl
  | cons item rest ih =>
    have apart : k ≠ key item := fun same => other (same ▸ List.mem_cons_self)
    have later : k ∉ rest.map key := fun mem => other (List.mem_cons_of_mem _ mem)
    rw [List.foldl_cons, ih later, Function.update_of_ne apart]

theorem updates_own {items : List α} (distinct : (items.map key).Nodup) {item : α} (mem : item ∈ items)
    (start : κ → Option β) :
    items.foldl (fun map item => Function.update map (key item) (some (value item))) start (key item) =
      some (value item) := by
  induction items generalizing start with
  | nil => cases mem
  | cons first rest ih =>
    obtain ⟨new, distinct⟩ := List.nodup_cons.mp distinct
    rw [List.foldl_cons]
    rcases List.mem_cons.mp mem with rfl | later
    · rw [updates_other key value new, Function.update_self]
    · exact ih distinct later _

end Updates

/-! ### The input -/

variable {routes : RouteMap}

theorem validateRoutes_ok {entries : List (Bytes × RouteValue)} :
    validateRoutes entries = .ok () ↔ ∀ entry ∈ entries, entry.2.validate = .ok () := by
  induction entries with
  | nil => exact iff_of_true rfl fun _ mem => (by cases mem)
  | cons entry rest ih =>
    rw [validateRoutes, List.forall_mem_cons, ← ih]
    cases entry.2.validate with
    | error error => exact iff_of_false (fun ok => (by cases ok)) fun ok => (by cases ok.1)
    | ok done => exact (and_iff_right rfl).symm

theorem validate_range (range : routes.Range) : validateRoutes range.val = .ok () ↔ routes.Valid := by
  rw [validateRoutes_ok]
  exact forall_congr' fun entry => imp_congr_left range.property.mem_iff

theorem range_distinct (range : routes.Range) : (range.val.map Prod.fst).Nodup :=
  (range.property.map Prod.fst).nodup_iff.mpr routes.distinct

theorem get?_eq_some {host : Bytes} {v : RouteValue} : routes.get? host = some v ↔ (host, v) ∈ routes.entries := by
  unfold RouteMap.get?
  rw [List.lookup_eq_some_iff]
  constructor
  · intro split
    obtain ⟨front, back, whole, -⟩ := split
    rw [whole]
    exact List.mem_append_right _ (List.mem_cons_self ..)
  · intro mem
    obtain ⟨front, back, whole⟩ := List.append_of_mem mem
    refine ⟨front, back, whole, ?_⟩
    intro entry early
    have distinct := routes.distinct
    rw [whole, List.map_append, List.nodup_append] at distinct
    refine bne_iff_ne.mpr fun same => distinct.2.2 entry.1 (List.mem_map_of_mem early) host ?_ same.symm
    exact List.mem_map_of_mem (List.mem_cons_self ..)

theorem routeKey_injective {host other : Bytes} (same : routeKey host = routeKey other) : host = other :=
  List.append_cancel_left same

/-- Writing a whole range under distinct names. -/
theorem updates_range {κ β : Type} [DecidableEq κ] (name : Bytes → κ) (injective : Function.Injective name)
    (value : RouteValue → β) (range : routes.Range) (start : κ → Option β) (host : Bytes) :
    range.val.foldl (fun (map : κ → Option β) entry => Function.update map (name entry.1) (some (value entry.2))) start
        (name host) =
      (routes.get? host).elim (start (name host)) fun v => some (value v) := by
  have distinct : (range.val.map fun entry => name entry.1).Nodup := by
    have names := (range_distinct range).map injective
    rwa [List.map_map] at names
  cases found : routes.get? host with
  | some v =>
    have mem : (host, v) ∈ range.val := range.property.mem_iff.mpr (get?_eq_some.mp found)
    exact updates_own (fun entry : Bytes × RouteValue => name entry.1) (fun entry => value entry.2) distinct mem start
  | none =>
    apply updates_other (fun entry : Bytes × RouteValue => name entry.1) (fun entry => value entry.2)
    intro listed
    obtain ⟨⟨other, v⟩, mem, same⟩ := List.mem_map.mp listed
    have known := get?_eq_some.mpr (range.property.mem_iff.mp mem)
    have own : other = host := injective same
    rw [own, found] at known
    cases known

/-! ### Requests -/

variable {answer : Nat → Answer} {error : RebuildError} {effect : Namespace → Namespace}

abbrev Served (answer : Nat → Answer) (i : Nat) : Prop := answer i = .served

theorem send_served {session : Session} (served : Served answer session.sent) :
    send answer error effect session = (.ok (), ⟨effect session.kv, session.sent + 1⟩) := by
  rw [send, served]

theorem send_failed {session : Session} (failed : ¬ Served answer session.sent) :
    ∃ kv, (kv = effect session.kv ∨ kv = session.kv) ∧
      send answer error effect session = (.error error, ⟨kv, session.sent + 1⟩) := by
  unfold send
  cases given : answer session.sent with
  | served => exact absurd given failed
  | lost => exact ⟨_, .inl rfl, rfl⟩
  | refused => exact ⟨_, .inr rfl, rfl⟩

theorem send_tells : Tells Session.sent (Served answer) (send answer error effect) := by
  intro session
  by_cases served : Served answer session.sent
  · rw [send_served served]
    refine ⟨Nat.le_succ _, iff_of_true ⟨(), rfl⟩ ?_⟩
    intro i least most
    obtain rfl : i = session.sent := Nat.le_antisymm (Nat.lt_succ_iff.mp most) least
    exact served
  · obtain ⟨kv, -, failed⟩ := send_failed served
    rw [failed]
    refine ⟨Nat.le_succ _, iff_of_false (fun ok => (by cases ok.choose_spec)) ?_⟩
    exact fun all => served (all session.sent (Nat.le_refl _) (Nat.lt_succ_self _))

theorem send_keeps {kept : Namespace → Prop} (keeps : ∀ kv, kept kv → kept (effect kv)) :
    Keeps (fun session => kept session.kv) (send answer error effect) := by
  intro session holds
  by_cases served : Served answer session.sent
  · rw [send_served served]
    exact keeps _ holds
  · obtain ⟨kv, either, failed⟩ := send_failed served
    rw [failed]
    rcases either with rfl | rfl
    · exact keeps _ holds
    · exact holds

theorem send_done {session : Session} (success : (send answer error effect session).1 = .ok ()) :
    (send answer error effect session).2.kv = effect session.kv := by
  by_cases served : Served answer session.sent
  · rw [send_served served]
  · obtain ⟨kv, -, failed⟩ := send_failed served
    rw [failed] at success
    cases success

namespace CloudflareKV

theorem listKeys_tells (pages : Pages) : Tells Session.sent (Served answer) (listKeys answer pages) := by
  induction pages with
  | last keys => exact send_tells.bind fun _ _ => tells_check keys
  | more keys next ih => exact send_tells.bind fun _ _ => ih.bind fun rest _ => tells_check (keys ++ rest)

theorem listKeys_keeps (kept : Namespace → Prop) (pages : Pages) :
    Keeps (fun session => kept session.kv) (listKeys answer pages) := by
  induction pages with
  | last keys => exact (send_keeps fun _ holds => holds).bind fun _ _ => keeps_check (.ok keys)
  | more keys next ih =>
    exact (send_keeps fun _ holds => holds).bind fun _ _ => ih.bind fun rest _ => keeps_check (.ok (keys ++ rest))

theorem listKeys_yields {pages : Pages} {keys : List Bytes} (yields : Yields (listKeys answer pages) keys) :
    keys = pages.keys := by
  obtain ⟨session, ran⟩ := yields
  have whole : listKeys answer pages session = (.ok keys, (listKeys answer pages session).2) := Prod.ext ran rfl
  generalize (listKeys answer pages session).2 = after at whole
  clear ran
  induction pages generalizing session keys with
  | last listed =>
    obtain ⟨_, _, -, later⟩ := bind_ok.mp whole
    cases later
    rfl
  | more listed next ih =>
    obtain ⟨_, middle, -, later⟩ := bind_ok.mp whole
    obtain ⟨rest, _, ran, later⟩ := bind_ok.mp later
    cases later
    rw [ih _ ran]
    rfl

variable {host : Bytes} {v : RouteValue}

theorem putRoute_eq (valid : v.validate = .ok ()) : putRoute answer host v =
    send answer (.request (routeKey host)) fun kv => Function.update kv (routeKey host) (some v.marshal) := by
  have body : Projection.putRoute v = .ok v.marshal := by
    unfold Projection.putRoute
    rw [valid]
    rfl
  unfold putRoute
  rw [body]
  rfl

local instance lawfulListed : LawfulBEq Bytes := inferInstance

/-- The rebuild once its input has been checked. -/
def rewrite (answer : Nat → Answer) (pages : Pages) (desired : List Bytes) (written : List (Bytes × RouteValue)) :
    Attempt RebuildError Session Unit := do
  let existing ← listKeys answer pages
  forEach (fun key => if key ∈ desired then pure () else deleteKey answer key) existing
  forEach (fun entry => putRoute answer entry.1 entry.2) written

variable {pages : Pages} {validated written : List (Bytes × RouteValue)}

theorem rebuild_valid (valid : validateRoutes validated = .ok ()) :
    rebuildFromDB answer pages validated written =
      rewrite answer pages (validated.map fun entry => routeKey entry.1) written := by
  unfold rebuildFromDB
  rw [valid]
  rfl

theorem rewrite_tells (desired : List Bytes) (valid : ∀ entry ∈ written, entry.2.validate = .ok ()) :
    Tells Session.sent (Served answer) (rewrite answer pages desired written) := by
  apply (listKeys_tells pages).bind
  intro existing _
  apply Tells.bind
  · apply Tells.forEach
    intro key _
    split
    · exact tells_check ()
    · exact send_tells
  · intro _ _
    apply Tells.forEach
    intro entry mem
    rw [putRoute_eq (valid entry mem)]
    exact send_tells

/-- A property of the namespace that neither a stale key's deletion nor a write of the
range touches. -/
theorem rewrite_keeps (kept : Namespace → Prop) {desired : List Bytes}
    (valid : ∀ entry ∈ written, entry.2.validate = .ok ())
    (stale : ∀ key ∈ pages.keys, key ∉ desired → ∀ kv, kept kv → kept (Function.update kv key none))
    (fresh : ∀ entry ∈ written, ∀ kv, kept kv →
      kept (Function.update kv (routeKey entry.1) (some entry.2.marshal))) :
    Keeps (fun session => kept session.kv) (rewrite answer pages desired written) := by
  apply (listKeys_keeps kept pages).bind
  intro existing listed
  obtain rfl := listKeys_yields listed
  apply Keeps.bind
  · apply Keeps.forEach
    intro key mem
    split
    · exact keeps_check (.ok ())
    · rename_i other
      exact send_keeps (stale key mem other)
  · intro _ _
    apply Keeps.forEach
    intro entry mem
    rw [putRoute_eq (valid entry mem)]
    exact send_keeps (fresh entry mem)

theorem prune_done {desired keys : List Bytes} {session : Session}
    (success : (forEach (fun key => if key ∈ desired then pure () else deleteKey answer key) keys session).1 = .ok ()) :
    (forEach (fun key => if key ∈ desired then pure () else deleteKey answer key) keys session).2.kv =
      keys.foldl (fun kv key => if key ∈ desired then kv else Function.update kv key none) session.kv := by
  apply forEach_done Session.kv _ _ success
  intro key _ state ok
  by_cases keep : key ∈ desired
  · rw [if_pos keep, if_pos keep]
    rfl
  · rw [if_neg keep] at ok
    rw [if_neg keep, if_neg keep]
    exact send_done ok

theorem write_done {session : Session} (valid : ∀ entry ∈ written, entry.2.validate = .ok ())
    (success : (forEach (fun entry => putRoute answer entry.1 entry.2) written session).1 = .ok ()) :
    (forEach (fun entry => putRoute answer entry.1 entry.2) written session).2.kv =
      written.foldl (fun kv entry => Function.update kv (routeKey entry.1) (some entry.2.marshal)) session.kv := by
  apply forEach_done Session.kv _ _ success
  intro entry mem state ok
  rw [putRoute_eq (valid entry mem)] at ok ⊢
  exact send_done ok

/-- The namespace after a success. -/
theorem rewrite_done {desired : List Bytes} {session : Session} (valid : ∀ entry ∈ written, entry.2.validate = .ok ())
    (success : (rewrite answer pages desired written session).1 = .ok ()) :
    (rewrite answer pages desired written session).2.kv =
      written.foldl (fun kv entry => Function.update kv (routeKey entry.1) (some entry.2.marshal))
        (pages.keys.foldl (fun kv key => if key ∈ desired then kv else Function.update kv key none) session.kv) := by
  have whole : rewrite answer pages desired written session =
      (.ok (), (rewrite answer pages desired written session).2) := Prod.ext success rfl
  generalize (rewrite answer pages desired written session).2 = after at whole ⊢
  obtain ⟨existing, listed, ran, later⟩ := bind_ok.mp whole
  obtain ⟨_, pruned, ran', last⟩ := bind_ok.mp later
  obtain rfl : existing = pages.keys := listKeys_yields ⟨session, by rw [ran]⟩
  have same : (listKeys answer pages session).2.kv = session.kv := by
    exact listKeys_keeps (fun kv => kv = session.kv) pages session rfl
  have first := prune_done (congrArg Prod.fst ran')
  have second := write_done valid (congrArg Prod.fst last)
  rw [ran'] at first
  rw [last, first] at second
  rw [ran] at same
  rw [second, same]

/-- Pruning takes the listed keys that are not wanted, and nothing else. -/
theorem prune_apply (desired keys : List Bytes) (kv : Namespace) (key : Bytes) :
    keys.foldl (fun kv key => if key ∈ desired then kv else Function.update kv key none) kv key =
      if key ∈ keys ∧ key ∉ desired then none else kv key := by
  induction keys generalizing kv with
  | nil => exact (if_neg fun gone => (by cases gone.1)).symm
  | cons first rest ih =>
    rw [List.foldl_cons, ih]
    by_cases gone : key ∈ rest ∧ key ∉ desired
    · rw [if_pos gone, if_pos ⟨List.mem_cons_of_mem _ gone.1, gone.2⟩]
    · rw [if_neg gone]
      by_cases keep : first ∈ desired
      · rw [if_pos keep, if_neg]
        intro listed
        rcases List.mem_cons.mp listed.1 with rfl | later
        · exact listed.2 keep
        · exact gone ⟨later, listed.2⟩
      · rw [if_neg keep]
        by_cases here : key = first
        · subst here
          rw [Function.update_self, if_pos ⟨List.mem_cons_self, keep⟩]
        · rw [Function.update_of_ne here, if_neg]
          intro listed
          exact gone ⟨(List.mem_cons.mp listed.1).resolve_left here, listed.2⟩

end CloudflareKV
/-! ### Both writers -/

section Rebuild

variable (validated written : routes.Range) (answer : Nat → Answer) {kv : Namespace} (listing : Listing kv)

/-- The rebuild of the KV namespace. -/
def cloudRebuild : Except RebuildError Unit × Session :=
  CloudflareKV.rebuildFromDB answer listing.pages validated.val written.val ⟨kv, 0⟩

variable {validated written answer listing}

theorem written_valid (valid : routes.Valid) : ∀ entry ∈ written.val, entry.2.validate = .ok () :=
  fun entry mem => valid entry (written.property.mem_iff.mp mem)

theorem cloud_eq (valid : routes.Valid) : cloudRebuild validated written answer listing =
    CloudflareKV.rewrite answer listing.pages (validated.val.map fun entry => routeKey entry.1) written.val ⟨kv, 0⟩ := by
  unfold cloudRebuild
  rw [CloudflareKV.rebuild_valid ((validate_range validated).mpr valid)]

theorem desired_iff {host : Bytes} :
    routeKey host ∈ validated.val.map (fun entry => routeKey entry.1) ↔ (routes.get? host).isSome = true := by
  rw [Option.isSome_iff_exists, List.mem_map]
  constructor
  · intro listed
    obtain ⟨⟨other, v⟩, mem, same⟩ := listed
    have own : other = host := routeKey_injective same
    exact ⟨v, get?_eq_some.mpr (own ▸ validated.property.mem_iff.mp mem)⟩
  · intro known
    obtain ⟨v, found⟩ := known
    exact ⟨(host, v), validated.property.mem_iff.mpr (get?_eq_some.mp found), rfl⟩

theorem invalid_stops (invalid : ¬ routes.Valid) :
    ∃ error, cloudRebuild validated written answer listing = (.error error, ⟨kv, 0⟩) := by
  unfold cloudRebuild CloudflareKV.rebuildFromDB
  cases checked : validateRoutes validated.val with
  | ok done => exact absurd ((validate_range validated).mp checked) invalid
  | error error => exact ⟨error, rfl⟩

/-- A rebuild of valid routes succeeds exactly if all its requests are served. -/
theorem cloud_tells (valid : routes.Valid) :
    (cloudRebuild validated written answer listing).1 = .ok () ↔
      ∀ i < (cloudRebuild validated written answer listing).2.sent, answer i = .served := by
  have tells : Tells Session.sent (Served answer) (CloudflareKV.rewrite answer listing.pages
      (validated.val.map fun entry => routeKey entry.1) written.val) :=
    CloudflareKV.rewrite_tells _ (written_valid valid)
  rw [cloud_eq valid]
  constructor
  · intro success i inside
    exact (tells ⟨kv, 0⟩).2.mp ⟨(), success⟩ i (Nat.zero_le _) inside
  · intro all
    obtain ⟨value, success⟩ := (tells ⟨kv, 0⟩).2.mpr fun i _ inside => all i inside
    exact success

theorem cloud_routes (valid : routes.Valid) (success : (cloudRebuild validated written answer listing).1 = .ok ())
    (host : Bytes) :
    (cloudRebuild validated written answer listing).2.kv (routeKey host) =
      (routes.get? host).map RouteValue.marshal := by
  rw [cloud_eq valid] at success ⊢
  rw [CloudflareKV.rewrite_done (written_valid valid) success,
    updates_range routeKey (fun _ _ same => routeKey_injective same) RouteValue.marshal written]
  cases found : routes.get? host with
  | some v => rfl
  | none =>
    have stale : routeKey host ∉ validated.val.map fun entry => routeKey entry.1 := by
      rw [desired_iff, found]
      exact Bool.false_ne_true
    rw [Option.elim_none, Option.map_none, CloudflareKV.prune_apply]
    by_cases listed : routeKey host ∈ listing.pages.keys
    · rw [if_pos ⟨listed, stale⟩]
    · rw [if_neg fun gone => listed gone.1]
      have absent : ¬ (kv (routeKey host)).isSome = true :=
        fun there => listed ((listing.complete _).mpr ⟨List.prefix_append _ _, there⟩)
      exact Option.not_isSome_iff_eq_none.mp absent

/-- Whatever fails, the keys of other prefixes stay as they are. -/
theorem cloud_others (key : Bytes) (other : ¬ routePrefix <+: key) :
    (cloudRebuild validated written answer listing).2.kv key = kv key := by
  by_cases valid : routes.Valid
  · rw [cloud_eq valid]
    have keeps : Keeps (fun session => session.kv key = kv key) (CloudflareKV.rewrite answer listing.pages
        (validated.val.map fun entry => routeKey entry.1) written.val) := by
      apply CloudflareKV.rewrite_keeps (fun now => now key = kv key) (written_valid valid)
      · intro stale listed _ now same
        have apart : key ≠ stale := fun equal => other (equal ▸ ((listing.complete stale).mp listed).1)
        rw [Function.update_of_ne apart, same]
      · intro entry _ now same
        have apart : key ≠ routeKey entry.1 := fun equal => other (equal ▸ List.prefix_append _ _)
        rw [Function.update_of_ne apart, same]
    exact keeps ⟨kv, 0⟩ rfl
  · have stops : ∃ error, cloudRebuild validated written answer listing = (.error error, ⟨kv, 0⟩) := invalid_stops valid
    obtain ⟨error, stopped⟩ := stops
    rw [stopped]

/-- Whatever fails, a host of the map that is served stays served. -/
theorem cloud_hosts {host : Bytes} (known : (routes.get? host).isSome = true)
    (served : (kv (routeKey host)).isSome = true) :
    ((cloudRebuild validated written answer listing).2.kv (routeKey host)).isSome = true := by
  by_cases valid : routes.Valid
  · rw [cloud_eq valid]
    have keeps : Keeps (fun session => (session.kv (routeKey host)).isSome = true) (CloudflareKV.rewrite answer
        listing.pages (validated.val.map fun entry => routeKey entry.1) written.val) := by
      apply CloudflareKV.rewrite_keeps (fun now => (now (routeKey host)).isSome = true) (written_valid valid)
      · intro stale _ unwanted now there
        have apart : routeKey host ≠ stale := fun equal => unwanted (equal ▸ desired_iff.mpr known)
        rwa [Function.update_of_ne apart]
      · intro entry _ now there
        by_cases own : routeKey host = routeKey entry.1
        · rw [own, Function.update_self]
          rfl
        · rwa [Function.update_of_ne own]
    exact keeps ⟨kv, 0⟩ served
  · have stops : ∃ error, cloudRebuild validated written answer listing = (.error error, ⟨kv, 0⟩) := invalid_stops valid
    obtain ⟨error, stopped⟩ := stops
    rw [stopped]
    exact served

/-! ### Exactness -/

theorem not_route {key : Bytes} (other : ascii "revoked:" <+: key ∨ ascii "org_status:" <+: key) :
    ¬ routePrefix <+: key := by
  intro route
  obtain ⟨host, rfl⟩ := route
  rcases other with revoked | status
  · obtain ⟨rest, same⟩ := revoked
    have letters := congrArg (List.take 2) same
    cases letters
  · obtain ⟨rest, same⟩ := status
    have letters := congrArg (List.take 1) same
    cases letters

theorem cloud_untouched : Untouched kv (cloudRebuild validated written answer listing).2.kv :=
  fun key other => cloud_others key (not_route other)

theorem memory_invalid {mirror : Except RebuildError Unit} {memory : Local} (invalid : ¬ routes.Valid) :
    ∃ error, Local.rebuildFromDB mirror validated.val written.val memory = (.error error, memory) := by
  unfold Local.rebuildFromDB
  cases checked : validateRoutes validated.val with
  | ok done => exact absurd ((validate_range validated).mp checked) invalid
  | error error => exact ⟨error, rfl⟩

theorem memory_valid {mirror : Except RebuildError Unit} {memory : Local} (valid : routes.Valid) :
    Local.rebuildFromDB mirror validated.val written.val memory =
      (mirror, { memory with routes := routes.get? }) := by
  have whole : written.val.foldl
      (fun (map : Bytes → Option RouteValue) entry => Function.update map entry.1 (some entry.2)) (fun _ => none) =
        routes.get? := by
    funext host
    have filled := updates_range id Function.injective_id id written (fun _ => none) host
    refine filled.trans ?_
    cases routes.get? host with
    | none => rfl
    | some v => rfl
  unfold Local.rebuildFromDB
  rw [(validate_range validated).mpr valid, whole]
  rfl

end Rebuild

/-- Whatever the namespace holds, however its keys are paged, in whatever order the map
is ranged over and whichever requests fail. -/
theorem rebuild_exact (routes : RouteMap) (validated written validated' written' : routes.Range) (kv : Namespace)
    (listing : Listing kv) (answer : Nat → Answer) (memory : Local) (mirror : Except RebuildError Unit) :
    (¬ routes.Valid →
      (∃ error, cloudRebuild validated written answer listing = (.error error, ⟨kv, 0⟩)) ∧
        ∃ error, Local.rebuildFromDB mirror validated'.val written'.val memory = (.error error, memory)) ∧
    (routes.Valid → (∀ i < (cloudRebuild validated written answer listing).2.sent, answer i = .served) →
      (cloudRebuild validated written answer listing).1 = .ok () ∧
        (∀ host, (cloudRebuild validated written answer listing).2.kv (routeKey host) =
          (routes.get? host).map RouteValue.marshal) ∧
        Untouched kv (cloudRebuild validated written answer listing).2.kv ∧
        Local.rebuildFromDB mirror validated'.val written'.val memory =
          (mirror, { memory with routes := routes.get? })) ∧
    (∀ i < (cloudRebuild validated written answer listing).2.sent, answer i ≠ .served →
      (∃ error, (cloudRebuild validated written answer listing).1 = .error error) ∧
        Untouched kv (cloudRebuild validated written answer listing).2.kv ∧
        ∀ host, (routes.get? host).isSome = true → (kv (routeKey host)).isSome = true →
          ((cloudRebuild validated written answer listing).2.kv (routeKey host)).isSome = true) := by
  refine ⟨?_, ?_, ?_⟩
  · intro invalid
    exact ⟨invalid_stops invalid, memory_invalid invalid⟩
  · intro valid served
    have success := (cloud_tells valid).mpr served
    exact ⟨success, cloud_routes valid success, cloud_untouched, memory_valid valid⟩
  · intro i inside failed
    refine ⟨?_, cloud_untouched, fun host => cloud_hosts⟩
    cases outcome : (cloudRebuild validated written answer listing).1 with
    | error error => exact ⟨error, rfl⟩
    | ok done =>
      by_cases valid : routes.Valid
      · exact absurd ((cloud_tells valid).mp outcome i inside) failed
      · have stops : ∃ error, cloudRebuild validated written answer listing = (.error error, ⟨kv, 0⟩) :=
          invalid_stops valid
        obtain ⟨error, stopped⟩ := stops
        rw [stopped] at outcome
        cases outcome

end Dropway.Projection
