import Mathlib.Data.List.Infix

/-! Lists joined by a doubled mark. A part that neither holds the doubled mark nor ends in
the mark is read back from what follows it. -/

namespace Dropway.Lib

variable {α : Type*}

structure Undoubled (mark : α) (part : List α) : Prop where
  single : ¬ [mark, mark] <:+: part
  closed : part.getLast? ≠ some mark

variable {mark : α}

theorem Undoubled.of_not_mem {part : List α} (free : mark ∉ part) : Undoubled mark part where
  single inside := free (inside.subset (List.mem_cons_self ..))
  closed last := free (List.mem_of_getLast? last)

private theorem nothing_more {part more rest rest' : List α} (clean : Undoubled mark (part ++ more))
    (same : mark :: mark :: rest = more ++ mark :: mark :: rest') : more = [] := by
  cases more with
  | nil => rfl
  | cons first more =>
    obtain ⟨rfl, later⟩ := List.cons.inj same
    cases more with
    | nil => exact absurd List.getLast?_concat clean.closed
    | cons second more =>
      obtain ⟨equal, -⟩ := List.cons.inj later
      exact absurd ⟨part, more, by simp [← equal]⟩ clean.single

theorem Undoubled.split {part part' rest rest' : List α} (clean : Undoubled mark part)
    (clean' : Undoubled mark part')
    (same : part ++ mark :: mark :: rest = part' ++ mark :: mark :: rest') :
    part = part' ∧ rest = rest' := by
  have cut : part = part' := by
    rcases List.append_eq_append_iff.mp same with ⟨more, rfl, behind⟩ | ⟨more, rfl, behind⟩
    · rw [nothing_more clean' behind, List.append_nil]
    · rw [nothing_more clean behind, List.append_nil]
  subst cut
  exact ⟨rfl, List.cons.inj (List.cons.inj (List.append_cancel_left same)).2 |>.2⟩

/-- A part followed by the doubled mark is no part itself. -/
theorem Undoubled.no_join {part : List α} (clean : Undoubled mark part) (front back : List α) :
    part ≠ front ++ mark :: mark :: back := by
  intro same
  exact clean.single ⟨front, back, by simp [same]⟩

section Split

variable [DecidableEq α]

/-- The parts between doubled marks, found from the left. -/
def splitPairs (mark : α) : List α → List (List α)
  | [] => [[]]
  | [first] => [[first]]
  | first :: second :: rest =>
    if first = mark ∧ second = mark then [] :: splitPairs mark rest
    else (splitPairs mark (second :: rest)).modifyHead (first :: ·)

theorem splitPairs_cons {first : α} (rest : List α) (other : first ≠ mark ∨ rest.head? ≠ some mark) :
    splitPairs mark (first :: rest) = (splitPairs mark rest).modifyHead (first :: ·) := by
  cases rest with
  | nil => rfl
  | cons second rest =>
    rw [splitPairs, if_neg]
    intro both
    rcases other with plain | plain
    · exact plain both.1
    · exact plain (congrArg some both.2)

theorem splitPairs_append {front : List α} (free : mark ∉ front) (rest : List α) :
    splitPairs mark (front ++ rest) = (splitPairs mark rest).modifyHead (front ++ ·) := by
  induction front with
  | nil =>
    rw [List.nil_append]
    cases splitPairs mark rest <;> rfl
  | cons first front ih =>
    have plain : first ≠ mark := fun same => free (same ▸ List.mem_cons_self)
    rw [List.cons_append, splitPairs_cons _ (.inl plain), ih fun mem => free (List.mem_cons_of_mem _ mem)]
    cases splitPairs mark rest <;> rfl

theorem splitPairs_ne_nil (mark : α) (whole : List α) : splitPairs mark whole ≠ [] := by
  induction whole using splitPairs.induct mark with
  | case1 => exact List.cons_ne_nil _ _
  | case2 => exact List.cons_ne_nil _ _
  | case3 first second rest both _ =>
    rw [splitPairs, if_pos both]
    exact List.cons_ne_nil _ _
  | case4 first second rest other ih =>
    rw [splitPairs, if_neg other]
    cases parts : splitPairs mark (second :: rest) with
    | nil => exact absurd parts ih
    | cons => exact List.cons_ne_nil _ _

/-- A filter that drops the mark sees what the parts hold. -/
theorem splitPairs_filter (keep : α → Bool) (drops : keep mark = false) (whole : List α) :
    ((splitPairs mark whole).map (List.filter keep)).flatten = whole.filter keep := by
  induction whole using splitPairs.induct mark with
  | case1 => rfl
  | case2 first => rw [splitPairs, List.map_singleton, List.flatten_singleton]
  | case3 first second rest both ih =>
    have dropped {one : α} (same : one = mark) : ¬ keep one = true := by
      rw [same, drops]
      exact Bool.false_ne_true
    rw [splitPairs, if_pos both, List.map_cons, List.flatten_cons, ih, List.filter_cons_of_neg (dropped both.1),
      List.filter_cons_of_neg (dropped both.2)]
    rfl
  | case4 first second rest other ih =>
    rw [splitPairs, if_neg other]
    cases parts : splitPairs mark (second :: rest) with
    | nil => exact absurd parts (splitPairs_ne_nil mark _)
    | cons part parts' =>
      rw [parts, List.map_cons, List.flatten_cons] at ih
      rw [List.modifyHead_cons, List.map_cons, List.flatten_cons, List.filter_cons, List.filter_cons, ← ih]
      split <;> rfl

end Split

end Dropway.Lib
