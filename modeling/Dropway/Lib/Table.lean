import Mathlib.Data.List.Nodup
import Mathlib.Data.List.AList
import Mathlib.Algebra.Ring.Nat

/-! Tables whose rows are told apart by a key. No two rows of a table have the
same key, so a lookup is the same thing as membership. -/

namespace Dropway.Lib

structure Table {ρ κ : Type} (key : ρ → κ) where
  rows : List ρ
  nodup : (rows.map key).Nodup

namespace Table

variable {ρ κ : Type} {key : ρ → κ}

def empty : Table key := ⟨[], by simp⟩

def singleton (row : ρ) : Table key := ⟨[row], List.nodup_singleton _⟩

theorem eq_of_key (table : Table key) {row other : ρ} (mem : row ∈ table.rows)
    (otherMem : other ∈ table.rows) (same : key row = key other) : row = other :=
  List.inj_on_of_nodup_map table.nodup mem otherMem same

def filter (table : Table key) (p : ρ → Bool) : List ρ := table.rows.filter p

theorem mem_filter {table : Table key} {p : ρ → Bool} {row : ρ} :
    row ∈ table.filter p ↔ row ∈ table.rows ∧ p row = true :=
  List.mem_filter

/-- Change the rows that `p` selects. -/
def update (table : Table key) (p : ρ → Bool) (change : ρ → ρ)
    (keeps : ∀ row, key (change row) = key row := by intro; rfl) : Table key where
  rows := table.rows.map fun row => if p row then change row else row
  nodup := by
    have same : key ∘ (fun row => if p row then change row else row) = key := by
      funext row
      by_cases selected : p row <;> simp [selected, keeps]
    rw [List.map_map, same]
    exact table.nodup

theorem mem_update {table : Table key} {p : ρ → Bool} {change : ρ → ρ}
    {keeps : ∀ row, key (change row) = key row} {row : ρ} :
    row ∈ (table.update p change keeps).rows ↔
      ∃ old ∈ table.rows, (if p old then change old else old) = row :=
  List.mem_map

def delete (table : Table key) (p : ρ → Bool) : Table key where
  rows := table.rows.filter fun row => !p row
  nodup := table.nodup.sublist (List.filter_sublist.map key)

theorem mem_delete {table : Table key} {p : ρ → Bool} {row : ρ} :
    row ∈ (table.delete p).rows ↔ row ∈ table.rows ∧ p row = false := by
  simp [delete]

section Keyed

variable [DecidableEq κ]

def get? (table : Table key) (k : κ) : Option ρ := table.rows.find? fun row => key row = k

theorem get?_eq_some {table : Table key} {k : κ} {row : ρ} :
    table.get? k = some row ↔ row ∈ table.rows ∧ key row = k := by
  constructor
  · intro found
    exact ⟨List.mem_of_find?_eq_some found, by simpa using List.find?_some found⟩
  · rintro ⟨mem, rfl⟩
    cases found : table.get? (key row) with
    | none => simpa using List.find?_eq_none.mp found row mem
    | some other =>
      have otherMem := List.mem_of_find?_eq_some found
      have same : key other = key row := by simpa using List.find?_some found
      rw [table.eq_of_key otherMem mem same]

theorem get?_eq_none {table : Table key} {k : κ} :
    table.get? k = none ↔ ∀ row ∈ table.rows, key row ≠ k := by
  simp [get?, List.find?_eq_none]

theorem get?_key {table : Table key} {k : κ} {row : ρ} (found : table.get? k = some row) :
    key row = k :=
  (get?_eq_some.mp found).2

/-- Put a row where its key is free. -/
def insert (table : Table key) (row : ρ) (free : table.get? (key row) = none) : Table key where
  rows := table.rows ++ [row]
  nodup := by
    rw [List.map_append, List.nodup_append]
    refine ⟨table.nodup, by simp, ?_⟩
    intro k mem other otherMem same
    obtain ⟨old, oldMem, rfl⟩ := List.mem_map.mp mem
    simp only [List.map_cons, List.map_nil, List.mem_singleton] at otherMem
    exact get?_eq_none.mp free old oldMem (same.trans otherMem)

theorem mem_insert {table : Table key} {row other : ρ} {free : table.get? (key row) = none} :
    other ∈ (table.insert row free).rows ↔ other ∈ table.rows ∨ other = row := by
  simp [insert]

theorem get?_update {table : Table key} {p : ρ → Bool} {change : ρ → ρ}
    {keeps : ∀ row, key (change row) = key row} (k : κ) :
    (table.update p change keeps).get? k =
      (table.get? k).map fun row => if p row then change row else row := by
  cases found : table.get? k with
  | none =>
    rw [Option.map_none, get?_eq_none]
    intro row mem
    obtain ⟨old, oldMem, rfl⟩ := mem_update.mp mem
    have other := get?_eq_none.mp found old oldMem
    by_cases selected : p old <;> simpa [selected, keeps] using other
  | some old =>
    obtain ⟨oldMem, keyed⟩ := get?_eq_some.mp found
    rw [Option.map_some, get?_eq_some]
    refine ⟨mem_update.mpr ⟨old, oldMem, rfl⟩, ?_⟩
    by_cases selected : p old <;> simp [selected, keeps, keyed]

theorem get?_insert {table : Table key} {row : ρ} {free : table.get? (key row) = none} (k : κ) :
    (table.insert row free).get? k = if key row = k then some row else table.get? k := by
  by_cases same : key row = k
  · rw [if_pos same, get?_eq_some]
    exact ⟨mem_insert.mpr (.inr rfl), same⟩
  · rw [if_neg same]
    simp [get?, insert, List.find?_append, same]

theorem get?_delete {table : Table key} {p : ρ → Bool} (k : κ) :
    (table.delete p).get? k = (table.get? k).filter fun row => !p row := by
  cases found : table.get? k with
  | none =>
    rw [Option.filter_none, get?_eq_none]
    intro row mem
    exact get?_eq_none.mp found row (mem_delete.mp mem).1
  | some old =>
    obtain ⟨oldMem, keyed⟩ := get?_eq_some.mp found
    cases gone : p old with
    | false =>
      rw [Option.filter_some, gone, Bool.not_false, if_pos rfl, get?_eq_some]
      exact ⟨mem_delete.mpr ⟨oldMem, gone⟩, keyed⟩
    | true =>
      rw [Option.filter_some, gone, Bool.not_true, if_neg Bool.false_ne_true, get?_eq_none]
      intro row mem same
      obtain ⟨rowMem, kept⟩ := mem_delete.mp mem
      rw [table.eq_of_key rowMem oldMem (same.trans keyed.symm), gone] at kept
      cases kept

/-- Put a row, or change the row that has its key already. -/
def upsert (table : Table key) (row : ρ) (change : ρ → ρ)
    (keeps : ∀ row, key (change row) = key row := by intro; rfl) : Table key :=
  match free : table.get? (key row) with
  | none => table.insert row free
  | some _ => table.update (fun old => key old = key row) change keeps

theorem get?_upsert {table : Table key} {row : ρ} {change : ρ → ρ}
    {keeps : ∀ row, key (change row) = key row} (k : κ) :
    (table.upsert row change keeps).get? k =
      if key row = k then some ((table.get? k).elim row change) else table.get? k := by
  unfold upsert
  split
  · rename_i free
    rw [get?_insert]
    by_cases same : key row = k
    · rw [if_pos same, if_pos same, ← same, free, Option.elim_none]
    · rw [if_neg same, if_neg same]
  · rename_i old found
    rw [get?_update]
    by_cases same : key row = k
    · subst same
      simp [found, get?_key found]
    · rw [if_neg same]
      cases other : table.get? k with
      | none => rfl
      | some row' =>
        have apart : ¬ key row' = key row := fun h => same (h.symm.trans (get?_key other))
        simp [apart]

theorem mem_upsert {table : Table key} {row other : ρ} {change : ρ → ρ}
    {keeps : ∀ row, key (change row) = key row} (mem : other ∈ (table.upsert row change keeps).rows) :
    other ∈ table.rows ∨ other = row ∨ ∃ old, table.get? (key row) = some old ∧ other = change old := by
  have found := get?_eq_some.mpr ⟨mem, rfl⟩
  rw [get?_upsert] at found
  split at found
  · rename_i same
    cases present : table.get? (key row) with
    | none =>
      rw [← same, present] at found
      exact .inr (.inl (Option.some.inj found).symm)
    | some old =>
      rw [← same, present] at found
      exact .inr (.inr ⟨old, rfl, (Option.some.inj found).symm⟩)
  · exact .inl (get?_eq_some.mp found).1

theorem mem_iff_get? {table : Table key} {row : ρ} :
    row ∈ table.rows ↔ table.get? (key row) = some row := by
  simp [get?_eq_some]

private theorem filter_find {rows : List ρ} (nodup : (rows.map key).Nodup) (k : κ) :
    (rows.filter fun row => decide (key row = k)) = (rows.find? fun row => decide (key row = k)).toList := by
  induction rows with
  | nil => rfl
  | cons row rest ih =>
    obtain ⟨new, nodup⟩ := List.nodup_cons.mp nodup
    by_cases here : key row = k
    · have others : rest.filter (fun row => decide (key row = k)) = [] := by
        rw [List.filter_eq_nil_iff]
        intro other mem chosen
        exact new (here.trans (of_decide_eq_true chosen).symm ▸ List.mem_map_of_mem mem)
      simp only [List.filter_cons, List.find?_cons, here, decide_true, if_true, others, Option.toList_some]
    · simp only [List.filter_cons, List.find?_cons, here, decide_false, Bool.false_eq_true, if_false]
      exact ih nodup

theorem filter_key (table : Table key) (k : κ) :
    (table.rows.filter fun row => decide (key row = k)) = (table.get? k).toList :=
  filter_find table.nodup k

/-- Rows that another key selects stay through an upsert. -/
theorem filter_upsert {table : Table key} {row : ρ} {change : ρ → ρ} {keeps : ∀ row, key (change row) = key row}
    {p : κ → Bool} (apart : p (key row) = false) :
    ((table.upsert row change keeps).rows.filter fun other => p (key other)) =
      table.rows.filter fun other => p (key other) := by
  unfold upsert
  split
  · rw [insert, List.filter_append, List.filter_cons, apart, if_neg Bool.false_ne_true, List.filter_nil,
      List.append_nil]
  · change (table.rows.map fun old => if decide (key old = key row) = true then change old else old).filter _ = _
    induction table.rows with
    | nil => rfl
    | cons old rest ih =>
      rw [List.map_cons]
      by_cases same : key old = key row
      · rw [if_pos (decide_eq_true same), List.filter_cons, keeps, List.filter_cons, same, apart,
          if_neg Bool.false_ne_true, if_neg Bool.false_ne_true, ih]
      · rw [if_neg fun chosen => same (of_decide_eq_true chosen), List.filter_cons, List.filter_cons, ih]

private theorem sum_filter {rows : List ρ} (nodup : (rows.map key).Nodup) (k : κ) (f : ρ → Nat) :
    ((rows.filter fun row => !decide (key row = k)).map f).sum +
      ((rows.find? fun row => key row = k).map f).getD 0 = (rows.map f).sum := by
  induction rows with
  | nil => rfl
  | cons row rest ih =>
    obtain ⟨new, nodup⟩ := List.nodup_cons.mp nodup
    by_cases here : key row = k
    · have others : rest.filter (fun row => !decide (key row = k)) = rest := by
        rw [List.filter_eq_self]
        intro other mem
        have apart : key other ≠ k := fun same => new (here.trans same.symm ▸ List.mem_map_of_mem mem)
        simp [apart]
      simp only [List.filter_cons, List.find?_cons, here, decide_true, Bool.not_true, Bool.false_eq_true,
        if_false, others, Option.map_some, Option.getD_some, List.map_cons, List.sum_cons]
      omega
    · have rest := ih nodup
      simp only [List.filter_cons, List.find?_cons, here, decide_false, Bool.not_false, if_true,
        List.map_cons, List.sum_cons]
      omega

/-- A sum over the rows loses what the deleted row counts. -/
theorem sum_delete (table : Table key) (k : κ) (f : ρ → Nat) :
    ((table.delete fun row => key row = k).rows.map f).sum + ((table.get? k).map f).getD 0 =
      (table.rows.map f).sum :=
  sum_filter table.nodup k f

theorem upsert_present {table : Table key} {row old : ρ} (present : table.get? (key row) = some old) :
    (table.upsert row id).rows = table.rows := by
  unfold upsert
  split
  · rename_i free
    rw [free] at present
    cases present
  · simp [update]

theorem sum_upsert_fresh {table : Table key} {row : ρ} (fresh : table.get? (key row) = none)
    (f : ρ → Nat) : ((table.upsert row id).rows.map f).sum = (table.rows.map f).sum + f row := by
  unfold upsert
  split
  · simp [insert]
  · rename_i old found
    rw [fresh] at found
    cases found

end Keyed
end Table

/-! A map that is filled entry by entry, as a loop over rows fills it. -/

section Entries

variable {κ β : Type} [DecidableEq κ]

def ofEntries (entries : List (κ × β)) : AList fun _ : κ => β :=
  entries.foldl (fun map entry => map.insert entry.1 entry.2) ∅

private theorem lookup_foldl {map : AList fun _ : κ => β} {entries : List (κ × β)} {k : κ} {v : β}
    (found : (entries.foldl (fun map entry => map.insert entry.1 entry.2) map).lookup k = some v) :
    (k, v) ∈ entries ∨ map.lookup k = some v := by
  induction entries generalizing map with
  | nil => exact .inr found
  | cons entry entries ih =>
    rcases ih found with mem | earlier
    · exact .inl (List.mem_cons_of_mem entry mem)
    · by_cases same : k = entry.1
      · subst same
        rw [AList.lookup_insert] at earlier
        obtain rfl := Option.some.inj earlier
        exact .inl List.mem_cons_self
      · rw [AList.lookup_insert_ne same] at earlier
        exact .inr earlier

theorem mem_of_lookup_ofEntries {entries : List (κ × β)} {k : κ} {v : β}
    (found : (ofEntries entries).lookup k = some v) : (k, v) ∈ entries := by
  rcases lookup_foldl found with mem | earlier
  · exact mem
  · simp at earlier

private theorem mem_foldl {map : AList fun _ : κ => β} {entries : List (κ × β)} {k : κ}
    (here : k ∈ map ∨ ∃ v, (k, v) ∈ entries) :
    k ∈ entries.foldl (fun map entry => map.insert entry.1 entry.2) map := by
  induction entries generalizing map with
  | nil =>
    rcases here with mem | ⟨v, mem⟩
    · exact mem
    · cases mem
  | cons entry entries ih =>
    apply ih
    rcases here with mem | ⟨v, mem⟩
    · exact .inl (by simp [mem])
    · rcases List.mem_cons.mp mem with same | mem
      · exact .inl (by simp [← same])
      · exact .inr ⟨v, mem⟩

theorem exists_lookup_ofEntries {entries : List (κ × β)} {k : κ} {v : β} (mem : (k, v) ∈ entries) :
    ∃ last, (ofEntries entries).lookup k = some last ∧ (k, last) ∈ entries := by
  have here : k ∈ ofEntries entries := mem_foldl (.inr ⟨v, mem⟩)
  obtain ⟨last, found⟩ := Option.isSome_iff_exists.mp (AList.lookup_isSome.mpr here)
  exact ⟨last, found, mem_of_lookup_ofEntries found⟩

end Entries
end Dropway.Lib
