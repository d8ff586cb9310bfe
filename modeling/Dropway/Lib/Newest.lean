import Mathlib.Data.List.Sort
import Mathlib.Order.Basic
import Mathlib.Algebra.Order.Ring.Int

/-! The newest rows of a table whose rows stand in the order of their numbers, as
SQL selects them: sorted downwards, up to a limit. -/

namespace Dropway.Lib

variable {ρ ν : Type} [LinearOrder ν]

def newestRows (limit : Nat) (rows : List ρ) : List ρ := rows.drop (rows.length - limit)

theorem length_newestRows (limit : Nat) (rows : List ρ) : (newestRows limit rows).length = min limit rows.length := by
  rw [newestRows, List.length_drop]
  omega

theorem mergeSort_reverse {numbers : List ν} (increasing : numbers.Pairwise (· < ·)) :
    numbers.mergeSort (fun one two => two ≤ one) = numbers.reverse := by
  have sorted : (numbers.mergeSort fun one two => two ≤ one).Pairwise
      (fun one two => decide (two ≤ one) = true) :=
    List.pairwise_mergeSort
      (fun a b c first second => decide_eq_true ((of_decide_eq_true second).trans (of_decide_eq_true first)))
      (fun a b => by simpa using le_total b a) numbers
  refine List.Perm.eq_of_pairwise ?_ sorted ?_
    ((List.mergeSort_perm numbers _).trans (List.reverse_perm numbers).symm)
  · intro a b _ _ first second
    exact le_antisymm (of_decide_eq_true second) (of_decide_eq_true first)
  · exact List.pairwise_reverse.mpr (increasing.imp fun less => decide_eq_true less.le)

/-- The rows with the greatest numbers are the last ones. -/
theorem filter_newestRows (number : ρ → ν) {rows : List ρ} (increasing : (rows.map number).Pairwise (· < ·))
    (limit : Nat) :
    rows.filter (fun row =>
        (((rows.map number).mergeSort fun one two => two ≤ one).take limit).contains (number row)) =
      newestRows limit rows := by
  have split : rows = rows.take (rows.length - limit) ++ newestRows limit rows := (List.take_append_drop _ rows).symm
  have chosen : ((rows.map number).mergeSort fun one two => two ≤ one).take limit =
      ((newestRows limit rows).map number).reverse := by
    rw [mergeSort_reverse increasing, List.take_reverse, List.length_map, ← List.map_drop, newestRows]
  rw [chosen]
  generalize newestRows limit rows = last at split
  generalize rows.take (rows.length - limit) = first at split
  rw [split, List.map_append, List.pairwise_append] at increasing
  have older : first.filter (fun row => ((last.map number).reverse).contains (number row)) = [] := by
    rw [List.filter_eq_nil_iff]
    intro row mem found
    have later := List.mem_reverse.mp (List.contains_iff_mem.mp found)
    exact lt_irrefl _ (increasing.2.2 _ (List.mem_map_of_mem mem) _ later)
  have newer : last.filter (fun row => ((last.map number).reverse).contains (number row)) = last := by
    rw [List.filter_eq_self]
    intro row mem
    exact List.contains_iff_mem.mpr (List.mem_reverse.mpr (List.mem_map_of_mem mem))
  rw [split, List.filter_append, older, newer, List.nil_append]

/-! ### Numbers without a gap -/

/-- The `n` numbers up to `last`. -/
def upTo (last : Int) (n : Nat) : List Int := (List.range n).map fun i : Nat => last - n + 1 + i

theorem upTo_succ (last : Int) (n : Nat) : upTo last (n + 1) = (last - n) :: upTo last n := by
  rw [upTo, List.range_succ_eq_map, List.map_cons, List.map_map, upTo]
  congr 1
  · push_cast
    omega
  · refine List.map_congr_left fun i _ => ?_
    simp only [Function.comp_apply, Nat.succ_eq_add_one]
    push_cast
    omega

theorem mem_upTo {last : Int} {n : Nat} {number : Int} : number ∈ upTo last n ↔ last - n < number ∧ number ≤ last := by
  induction n with
  | zero =>
    rw [upTo, List.range_zero, List.map_nil]
    constructor
    · intro none
      cases none
    · intro between
      omega
  | succ n ih =>
    rw [upTo_succ, List.mem_cons, ih]
    omega

/-- Numbers that grow up to `last` are the ones up to it if none of those after the
first is missing. -/
theorem eq_upTo {numbers : List Int} {last : Int} (increasing : numbers.Pairwise (· < ·))
    (below : ∀ number ∈ numbers, number ≤ last) :
    (∀ number ∈ numbers, ∀ later, number ≤ later → later ≤ last → later ∈ numbers) ↔
      numbers = upTo last numbers.length := by
  constructor
  · intro full
    induction numbers with
    | nil => rfl
    | cons first rest ih =>
      obtain ⟨least, increasing⟩ := List.pairwise_cons.mp increasing
      have tail := ih increasing (fun number mem => below number (List.mem_cons_of_mem _ mem)) (by
        intro number mem later before after
        have listed := full number (List.mem_cons_of_mem _ mem) later before after
        rcases List.mem_cons.mp listed with rfl | found
        · have more := least number mem
          omega
        · exact found)
      have head : first = last - rest.length := by
        have most := below first List.mem_cons_self
        have next : first = last ∨ first + 1 ∈ rest := by
          by_cases top : first = last
          · exact .inl top
          · have listed := full first List.mem_cons_self (first + 1) (by omega) (by omega)
            rcases List.mem_cons.mp listed with same | found
            · omega
            · exact .inr found
        have above (number : Int) (mem : number ∈ rest) : last - rest.length < number := by
          rw [tail] at mem
          exact (mem_upTo.mp mem).1
        rcases next with top | found
        · cases rest with
          | nil =>
            rw [List.length_nil]
            omega
          | cons second rest =>
            have more := least second List.mem_cons_self
            have limit := below second (List.mem_cons_of_mem _ List.mem_cons_self)
            omega
        · have reached := above _ found
          have some := List.length_pos_of_mem found
          have smallest : last - rest.length + 1 ∈ upTo last rest.length := mem_upTo.mpr ⟨by omega, by omega⟩
          rw [← tail] at smallest
          have more := least _ smallest
          omega
      rw [List.length_cons, upTo_succ, ← tail, head]
  · intro same number mem later before after
    rw [same] at mem ⊢
    rw [mem_upTo] at mem ⊢
    omega

end Dropway.Lib
