import Mathlib.Algebra.Order.Group.Int

/-! A cache of one value that is fetched from elsewhere. For its time to live the
value is used as it is; after that, for a period of grace, only where a fetch
gives nothing to replace it with. -/

namespace Dropway.Lib.StaleCache

variable {ν : Type}

structure Entry (ν : Type) where
  value : ν
  expiresAt : Int

/-- A fetch that gave a value, with the time of the load that made it. -/
structure Fetch (ν : Type) where
  calledAt : Int
  value : ν

def Fetch.entry (ttl : Int) (fetch : Fetch ν) : Entry ν := ⟨fetch.value, fetch.calledAt + ttl⟩

def Fresh (cached : Option (Entry ν)) (now : Int) : Prop := ∃ entry ∈ cached, now < entry.expiresAt

theorem not_fresh_none {now : Int} : ¬ Fresh (none : Option (Entry ν)) now := by
  rintro ⟨_, mem, _⟩
  cases mem

theorem fresh_some_iff {entry : Entry ν} {now : Int} : Fresh (some entry) now ↔ now < entry.expiresAt := by
  constructor
  · rintro ⟨_, mem, early⟩
    cases mem
    exact early
  · exact fun early => ⟨entry, rfl, early⟩

instance (cached : Option (Entry ν)) (now : Int) : Decidable (Fresh cached now) :=
  match cached with
  | none => isFalse not_fresh_none
  | some entry => decidable_of_iff (now < entry.expiresAt) fresh_some_iff.symm

/-- The value to use, with the entry that is cached afterwards. -/
def load (ttl grace : Int) (cached : Option (Entry ν)) (now : Int) (fetched : Option ν) :
    Option ν × Option (Entry ν) :=
  if Fresh cached now then (cached.map Entry.value, cached)
  else
    match fetched with
    | some value => (some value, some (Fetch.entry ttl ⟨now, value⟩))
    | none => ((cached.filter fun entry => now < entry.expiresAt + grace).map Entry.value, cached)

/-- The fetch that a load makes, if it makes one that gives a value. -/
def fetches (cached : Option (Entry ν)) (now : Int) (fetched : Option ν) : List (Fetch ν) :=
  if Fresh cached now then [] else (fetched.map fun value => ⟨now, value⟩).toList

theorem calledAt_of_mem {cached : Option (Entry ν)} {now : Int} {fetched : Option ν} {own : Fetch ν}
    (mem : own ∈ fetches cached now fetched) : own.calledAt = now := by
  unfold fetches at mem
  split at mem
  · cases mem
  · obtain ⟨value, -, rfl⟩ := Option.map_eq_some_iff.mp (Option.mem_toList.mp mem)
    rfl

/-- The value of the latest fetch, unless it is as old as the bound. -/
def latestWithin (bound now : Int) (fetches : List (Fetch ν)) : Option ν :=
  (fetches.head?.filter fun fetch => now < fetch.calledAt + bound).map Fetch.value

variable {ttl grace now : Int} {cached : Option (Entry ν)} {earlier : List (Fetch ν)}

private theorem fresh_iff (same : cached = earlier.head?.map (Fetch.entry ttl)) :
    Fresh cached now ↔ ∃ fetch ∈ earlier.head?, now < fetch.calledAt + ttl := by
  rw [same, Fresh]
  cases earlier.head? with
  | none => simp
  | some fetch => simp [Fetch.entry]

/-- Where the latest fetch is cached, so it is after a load. -/
theorem load_cached (same : cached = earlier.head?.map (Fetch.entry ttl)) (fetched : Option ν) :
    (load ttl grace cached now fetched).2 =
      (fetches cached now fetched ++ earlier).head?.map (Fetch.entry ttl) := by
  unfold load fetches
  by_cases fresh : Fresh cached now
  · rw [if_pos fresh, if_pos fresh]
    exact same
  · rw [if_neg fresh, if_neg fresh]
    cases fetched with
    | none => exact same
    | some value => rfl

/-- A load gives the value of the latest fetch, its own included, for as long as
the time to live and the grace together, and nothing after that. -/
theorem load_latest (living : 0 < ttl) (graceful : 0 ≤ grace)
    (same : cached = earlier.head?.map (Fetch.entry ttl)) (fetched : Option ν) :
    (load ttl grace cached now fetched).1 =
      latestWithin (ttl + grace) now (fetches cached now fetched ++ earlier) := by
  unfold load fetches
  by_cases fresh : Fresh cached now
  · rw [if_pos fresh, if_pos fresh, List.nil_append, latestWithin, same]
    obtain ⟨fetch, latest, within⟩ := (fresh_iff same).mp fresh
    have covered : now < fetch.calledAt + (ttl + grace) := by omega
    rw [Option.mem_def.mp latest, Option.filter_some_pos (by exact decide_eq_true covered)]
    rfl
  · rw [if_neg fresh, if_neg fresh]
    cases fetched with
    | none =>
      simp only [Option.map_none, Option.toList_none, List.nil_append, latestWithin, same]
      cases earlier.head? with
      | none => rfl
      | some fetch =>
        by_cases covered : now < fetch.calledAt + (ttl + grace)
        · have also : now < fetch.calledAt + ttl + grace := by omega
          simp [Fetch.entry, Option.filter, covered, also]
        · have also : ¬ now < fetch.calledAt + ttl + grace := by omega
          simp [Fetch.entry, Option.filter, covered, also]
    | some value =>
      have covered : now < now + (ttl + grace) := by omega
      simp [latestWithin, Option.filter, covered]

/-- What a load at `now` gives, from the fetches that were made until then: the
latest and no older than the bound, so that what no fetch gives any more is not
given once the bound has passed. -/
structure Current (bound now : Int) (fetches : List (Fetch ν)) (given : Option ν) : Prop where
  latest : given = latestWithin bound now fetches
  past : ∀ fetch ∈ fetches, fetch.calledAt ≤ now
  withdrawn : ∀ (old : ν → Prop) (since : Int), (∀ fetch ∈ fetches, since ≤ fetch.calledAt → ¬ old fetch.value) →
    since + bound ≤ now → ∀ value ∈ given, ¬ old value

theorem Current.of_latest {bound : Int} {fetches : List (Fetch ν)} {given : Option ν}
    (latest : given = latestWithin bound now fetches) (past : ∀ fetch ∈ fetches, fetch.calledAt ≤ now) :
    Current bound now fetches given := by
  refine ⟨latest, past, ?_⟩
  intro old since gone passed value mem
  rw [latest] at mem
  obtain ⟨fetch, found, rfl⟩ := Option.map_eq_some_iff.mp mem
  obtain ⟨first, within⟩ := Option.filter_eq_some_iff.mp found
  have recent : now < fetch.calledAt + bound := of_decide_eq_true within
  exact gone fetch (List.mem_of_head? first) (by omega)

end Dropway.Lib.StaleCache
