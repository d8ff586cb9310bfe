import Mathlib.Data.List.Perm.Basic

/-! The last value that a history has of something, where later ones replace it. -/

namespace Dropway.Lib

variable {α β : Type} {f : α → Option β}

def lastOf (f : α → Option β) (history : List α) : Option β := history.reverse.findSome? f

@[simp] theorem lastOf_nil : lastOf f [] = none := rfl

@[simp] theorem lastOf_concat (history : List α) (event : α) :
    lastOf f (history ++ [event]) = (f event).or (lastOf f history) := by
  cases value : f event with
  | none => simp [lastOf, value]
  | some value_ => simp [lastOf, value]

theorem lastOf_eq_none {history : List α} : lastOf f history = none ↔ ∀ event ∈ history, f event = none := by
  simp [lastOf]

theorem exists_of_lastOf {history : List α} {value : β} (found : lastOf f history = some value) :
    ∃ event ∈ history, f event = some value := by
  obtain ⟨event, mem, same⟩ := List.exists_of_findSome?_eq_some found
  exact ⟨event, List.mem_reverse.mp mem, same⟩

/-- Whether there is a last value does not depend on the order. -/
theorem lastOf_none_perm {one two : List α} (same : ∀ event, event ∈ one ↔ event ∈ two) :
    lastOf f one = none ↔ lastOf f two = none := by
  simp only [lastOf_eq_none, same]

end Dropway.Lib
