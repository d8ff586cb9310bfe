import Mathlib.Data.List.Chain
import Mathlib.Data.List.DropRight
import Mathlib.Tactic.Common

/-! Replacing runs of characters by one hyphen, as regular expressions do it. Reading
the letters alone, with one hyphen for whatever stands between two of them, is what a
sequence of such replacements comes to. -/

namespace Dropway.Lib.Hyphens

/-- Where a reader of the letters stands: before the first, after one, past what follows one. -/
inductive Place where
  | start
  | word
  | gap
  deriving DecidableEq

def Place.skip : Place → Place
  | .start => .start
  | .word => .gap
  | .gap => .gap

def Place.lead {α : Type} (hyphen : α) : Place → List α
  | .start => []
  | .word => []
  | .gap => [hyphen]

@[simp] theorem Place.skip_skip (place : Place) : place.skip.skip = place.skip := by
  cases place <;> rfl

variable {α : Type} (letter other : α → Bool) (hyphen : α) (least : Nat)

/-- A run is replaced if it is long enough. -/
def flush (run : List α) : List α := if least ≤ run.length then [hyphen] else run

/-- Every run of `least` or more of the others becomes a hyphen; `run` is the run so far. -/
def replaceRuns : List α → List α → List α
  | run, [] => flush hyphen least run
  | run, c :: rest =>
    if other c then replaceRuns (run ++ [c]) rest else flush hyphen least run ++ c :: replaceRuns [] rest

/-- The letters, with one hyphen between two that are apart. -/
def joined : Place → List α → List α
  | _, [] => []
  | place, c :: rest =>
    if letter c then place.lead hyphen ++ c :: joined .word rest else joined place.skip rest

def after : Place → List α → Place
  | place, [] => place
  | place, c :: rest => if letter c then after .word rest else after place.skip rest

/-- Letters, and single hyphens between them. -/
structure Clean (text : List α) : Prop where
  chars : ∀ c ∈ text, letter c = true ∨ c = hyphen
  single : text.IsChain fun c d => ¬ (c = hyphen ∧ d = hyphen)
  head : ∀ c ∈ text.head?, c ≠ hyphen
  last : ∀ c ∈ text.getLast?, c ≠ hyphen

variable {letter other hyphen least}

/-! ### Reading the letters -/

@[simp] theorem joined_nil (place : Place) : joined letter hyphen place [] = [] := rfl

theorem joined_letter {c : α} (is : letter c = true) (place : Place) (rest : List α) :
    joined letter hyphen place (c :: rest) = place.lead hyphen ++ c :: joined letter hyphen .word rest := by
  rw [joined, if_pos is]

theorem joined_other {c : α} (not : letter c = false) (place : Place) (rest : List α) :
    joined letter hyphen place (c :: rest) = joined letter hyphen place.skip rest := by
  rw [joined, not, if_neg Bool.false_ne_true]

theorem joined_append (place : Place) (front back : List α) :
    joined letter hyphen place (front ++ back) =
      joined letter hyphen place front ++ joined letter hyphen (after letter place front) back := by
  induction front generalizing place with
  | nil => rfl
  | cons c front ih =>
    rw [List.cons_append]
    cases is : letter c with
    | true => rw [joined_letter is, joined_letter is, after, if_pos is, ih, List.append_assoc, List.cons_append]
    | false => rw [joined_other is, joined_other is, after, is, if_neg Bool.false_ne_true, ih]

/-- A run of others is skipped as one of them is. -/
theorem joined_skip {run : List α} (not : ∀ c ∈ run, letter c = false) (some : run ≠ []) (place : Place)
    (rest : List α) : joined letter hyphen place (run ++ rest) = joined letter hyphen place.skip rest := by
  induction run generalizing place with
  | nil => exact absurd rfl some
  | cons c run ih =>
    obtain ⟨first, later⟩ := List.forall_mem_cons.mp not
    rw [List.cons_append, joined_other first]
    by_cases empty : run = []
    · rw [empty, List.nil_append]
    · rw [ih later empty, Place.skip_skip]

theorem joined_none {run : List α} (not : ∀ c ∈ run, letter c = false) (place : Place) :
    joined letter hyphen place run = [] := by
  by_cases empty : run = []
  · rw [empty, joined_nil]
  · have skipped : joined letter hyphen place (run ++ []) = joined letter hyphen place.skip [] :=
      joined_skip not empty place []
    rwa [List.append_nil] at skipped

/-! ### Runs -/

theorem joined_flush (positive : 0 < least) (mark : letter hyphen = false) {run : List α}
    (not : ∀ c ∈ run, letter c = false) (place : Place) (rest : List α) :
    joined letter hyphen place (flush hyphen least run ++ rest) = joined letter hyphen place (run ++ rest) := by
  unfold flush
  by_cases long : least ≤ run.length
  · have some : run ≠ [] := List.ne_nil_of_length_pos (Nat.lt_of_lt_of_le positive long)
    rw [if_pos long, joined_skip not some, List.singleton_append, joined_other mark]
  · rw [if_neg long]

/-- Replacing others by a hyphen does not change the letters that are read. -/
theorem joined_replaceRuns (positive : 0 < least) (mark : letter hyphen = false)
    (apart : ∀ c, other c = true → letter c = false) {run : List α} (not : ∀ c ∈ run, letter c = false)
    (place : Place) (text : List α) :
    joined letter hyphen place (replaceRuns other hyphen least run text) = joined letter hyphen place (run ++ text) := by
  induction text generalizing run place with
  | nil =>
    have flushed := joined_flush positive mark not place []
    rwa [List.append_nil] at flushed
  | cons c rest ih =>
    rw [replaceRuns]
    by_cases is : other c = true
    · have longer : ∀ d ∈ run ++ [c], letter d = false := by
        intro d mem
        rcases List.mem_append.mp mem with early | here
        · exact not d early
        · rw [List.mem_singleton.mp here]
          exact apart c is
      rw [if_pos is, ih longer, List.append_assoc, List.singleton_append]
    · have none : ∀ d ∈ ([] : List α), letter d = false := fun d mem => (by cases mem)
      rw [if_neg is, joined_flush positive mark not, ← List.singleton_append, ← List.append_assoc, joined_append, ih none,
        List.nil_append, ← joined_append, List.append_assoc, List.singleton_append]

theorem mem_flush {run : List α} {c : α} (mem : c ∈ flush hyphen least run) : c = hyphen ∨ c ∈ run ∧ run.length < least := by
  unfold flush at mem
  by_cases long : least ≤ run.length
  · rw [if_pos long] at mem
    exact .inl (List.mem_singleton.mp mem)
  · rw [if_neg long] at mem
    exact .inr ⟨mem, Nat.lt_of_not_le long⟩

theorem mem_replaceRuns {run text : List α} {c : α} (mem : c ∈ replaceRuns other hyphen least run text) :
    c = hyphen ∨ c ∈ run ++ text := by
  induction text generalizing run with
  | nil =>
    rcases mem_flush mem with rfl | kept
    · exact .inl rfl
    · exact .inr (List.mem_append_left _ kept.1)
  | cons d rest ih =>
    rw [replaceRuns] at mem
    by_cases is : other d = true
    · rw [if_pos is] at mem
      have longer := ih mem
      rwa [List.append_assoc, List.singleton_append] at longer
    · rw [if_neg is] at mem
      rcases List.mem_append.mp mem with early | later
      · exact (mem_flush early).imp_right fun kept => List.mem_append_left _ kept.1
      · rcases List.mem_cons.mp later with rfl | later
        · exact .inr (List.mem_append_right _ List.mem_cons_self)
        · exact (ih later).imp_right fun inside => List.mem_append_right _ (List.mem_cons_of_mem _ inside)

/-- Nothing is left of the others when all runs are replaced. -/
theorem replaceRuns_chars {run text : List α} {c : α} (mem : c ∈ replaceRuns other hyphen 1 run text) :
    c = hyphen ∨ other c = false := by
  have flushed {run : List α} (early : c ∈ flush hyphen 1 run) : c = hyphen := by
    rcases mem_flush early with rfl | ⟨inside, short⟩
    · rfl
    · exact absurd (List.length_pos_of_mem inside) (Nat.not_lt_of_le (Nat.le_of_lt_succ short))
  induction text generalizing run with
  | nil => exact .inl (flushed mem)
  | cons d rest ih =>
    rw [replaceRuns] at mem
    by_cases is : other d = true
    · rw [if_pos is] at mem
      exact ih mem
    · rw [if_neg is] at mem
      rcases List.mem_append.mp mem with early | later
      · exact .inl (flushed early)
      · rcases List.mem_cons.mp later with rfl | later
        · exact .inr (Bool.eq_false_iff.mpr is)
        · exact ih later

theorem flush_hyphens (positive : 0 < least) (small : least ≤ 2) {run : List α} (all : ∀ c ∈ run, c = hyphen) :
    flush hyphen least run = if run = [] then [] else [hyphen] := by
  unfold flush
  match run with
  | [] => rw [if_neg (by exact Nat.not_le_of_lt positive), if_pos rfl]
  | [c] =>
    rw [all c List.mem_cons_self, if_neg (List.cons_ne_nil _ _), ite_self]
  | c :: d :: rest =>
    rw [if_neg (List.cons_ne_nil _ _), if_pos]
    rw [List.length_cons, List.length_cons]
    omega

/-! ### Clean texts -/

variable {text : List α}

theorem Clean.letter_head (clean : Clean letter hyphen text) {c : α} {rest : List α} (starts : text = c :: rest) :
    letter c = true := by
  subst starts
  exact (clean.chars c List.mem_cons_self).resolve_right (clean.head c rfl)

theorem joined_word (chars : ∀ c ∈ text, letter c = true ∨ c = hyphen) (mark : letter hyphen = false)
    (single : text.IsChain fun c d => ¬ (c = hyphen ∧ d = hyphen)) (last : ∀ c ∈ text.getLast?, c ≠ hyphen) :
    joined letter hyphen .word text = text := by
  induction text with
  | nil => rfl
  | cons c rest ih =>
    obtain ⟨here, later⟩ := List.forall_mem_cons.mp chars
    obtain ⟨next, rest_single⟩ := List.isChain_cons.mp single
    cases rest with
    | nil =>
      have is : letter c = true := here.resolve_right (last c rfl)
      rw [joined_letter is]
      rfl
    | cons d rest =>
      have rest_last : ∀ e ∈ (d :: rest).getLast?, e ≠ hyphen := by
        intro e mem
        apply last e
        rwa [List.getLast?_cons_cons]
      have tail := ih later rest_single rest_last
      rcases here with is | rfl
      · rw [joined_letter is, tail]
        rfl
      · have is : letter d = true := (later d List.mem_cons_self).resolve_right fun same => next d rfl ⟨rfl, same⟩
        rw [joined_letter is] at tail
        rw [joined_other mark, joined_letter is]
        exact congrArg (c :: ·) tail

/-- A clean text is its own letters, joined. -/
theorem Clean.joined (clean : Clean letter hyphen text) (mark : letter hyphen = false) :
    joined letter hyphen .start text = text := by
  have read := joined_word clean.chars mark clean.single clean.last
  cases text with
  | nil => rfl
  | cons c rest =>
    have is := clean.letter_head rfl
    rw [joined_letter is] at read ⊢
    exact read

/-! ### Collapsing and trimming the hyphens -/

variable [DecidableEq α]

def trim (hyphen : α) (text : List α) : List α := (text.dropWhile (· = hyphen)).rdropWhile (· = hyphen)

/-- Collapsing the hyphens leaves no two of them next to each other. -/
theorem collapse_single (positive : 0 < least) (small : least ≤ 2) {run : List α} (all : ∀ c ∈ run, c = hyphen)
    (text : List α) :
    (replaceRuns (· = hyphen) hyphen least run text).IsChain fun c d => ¬ (c = hyphen ∧ d = hyphen) := by
  induction text generalizing run with
  | nil =>
    rw [replaceRuns, flush_hyphens positive small all]
    split
    · exact .nil
    · exact .singleton _
  | cons c rest ih =>
    rw [replaceRuns]
    by_cases is : c = hyphen
    · have longer : ∀ d ∈ run ++ [c], d = hyphen := by
        intro d mem
        rcases List.mem_append.mp mem with early | here
        · exact all d early
        · exact (List.mem_singleton.mp here).trans is
      rw [if_pos (decide_eq_true is)]
      exact ih longer
    · have none : ∀ d ∈ ([] : List α), d = hyphen := fun d mem => (by cases mem)
      have here : (c :: replaceRuns (· = hyphen) hyphen least [] rest).IsChain fun c d => ¬ (c = hyphen ∧ d = hyphen) :=
        List.isChain_cons.mpr ⟨fun d _ both => is both.1, ih none⟩
      rw [if_neg (by simpa only [decide_eq_true_eq] using is), flush_hyphens positive small all]
      split
      · exact here
      · exact List.isChain_cons.mpr ⟨fun d first both => is (by cases first; exact both.2), here⟩

theorem joined_dropWhile (mark : letter hyphen = false) (text : List α) :
    joined letter hyphen .start (text.dropWhile (· = hyphen)) = joined letter hyphen .start text := by
  induction text with
  | nil => rfl
  | cons c rest ih =>
    by_cases is : c = hyphen
    · rw [List.dropWhile_cons, if_pos (decide_eq_true is), ih, is, joined_other mark]
      rfl
    · rw [List.dropWhile_cons, if_neg (by simpa only [decide_eq_true_eq] using is)]

theorem joined_rdropWhile (mark : letter hyphen = false) (place : Place) (text : List α) :
    joined letter hyphen place (text.rdropWhile (· = hyphen)) = joined letter hyphen place text := by
  have not : ∀ c ∈ text.rtakeWhile (· = hyphen), letter c = false := by
    intro c mem
    have is := List.mem_rtakeWhile_imp mem
    rw [of_decide_eq_true is]
    exact mark
  have whole : joined letter hyphen place (text.rdropWhile (· = hyphen) ++ text.rtakeWhile (· = hyphen)) = _ :=
    joined_append place _ _
  rw [List.rdropWhile_append_rtakeWhile, joined_none not, List.append_nil] at whole
  exact whole.symm

theorem trim_leading : trim hyphen text <+: text.dropWhile (· = hyphen) := List.rdropWhile_prefix _ _

theorem last_rdropWhile {c : α} (last : c ∈ (text.rdropWhile (· = hyphen)).getLast?) : c ≠ hyphen := by
  obtain ⟨some, rfl⟩ := List.mem_getLast?_eq_getLast last
  have not := List.rdropWhile_last_not (fun c => decide (c = hyphen)) text some
  simpa only [decide_eq_true_eq] using not

/-- Trimming makes a text clean whose hyphens are single. -/
theorem trim_clean (chars : ∀ c ∈ text, letter c = true ∨ c = hyphen)
    (single : text.IsChain fun c d => ¬ (c = hyphen ∧ d = hyphen)) : Clean letter hyphen (trim hyphen text) := by
  have inside : trim hyphen text <:+: text :=
    trim_leading.isInfix.trans (List.dropWhile_suffix _).isInfix
  refine ⟨fun c mem => chars c (inside.subset mem), single.infix inside, ?_, fun c last => last_rdropWhile last⟩
  intro c first
  obtain ⟨back, split⟩ := (trim_leading : trim hyphen text <+: _)
  have head : c ∈ (text.dropWhile (· = hyphen)).head? := by
    rw [← split, List.head?_append, first]
    rfl
  have some : text.dropWhile (· = hyphen) ≠ [] := by
    intro none
    rw [none] at head
    cases head
  have not := List.head_dropWhile_not (fun c => decide (c = hyphen)) some
  rw [List.head?_eq_some_head some] at head
  cases head
  simpa only [decide_eq_false_iff_not] using not

/-- So does cutting it and trimming the end. -/
theorem Clean.cut (clean : Clean letter hyphen text) (n : Nat) :
    Clean letter hyphen ((text.take n).rdropWhile (· = hyphen)) := by
  have front : (text.take n).rdropWhile (· = hyphen) <+: text := (List.rdropWhile_prefix _ _).trans (List.take_prefix n text)
  refine ⟨fun c mem => clean.chars c (front.subset mem), clean.single.prefix front, ?_, fun c last => last_rdropWhile last⟩
  intro c first
  obtain ⟨back, split⟩ := front
  apply clean.head c
  rw [← split, List.head?_append, first]
  rfl

/-- All others replaced, the hyphens collapsed and trimmed. -/
def replaced (other : α → Bool) (hyphen : α) (least : Nat) (text : List α) : List α :=
  trim hyphen (replaceRuns (· = hyphen) hyphen least [] (replaceRuns other hyphen 1 [] text))

variable (letter)

theorem replaced_clean (positive : 0 < least) (small : least ≤ 2)
    (others : ∀ c, other c = false → letter c = true ∨ c = hyphen) (text : List α) :
    Clean letter hyphen (replaced other hyphen least text) := by
  apply trim_clean
  · intro c mem
    rcases mem_replaceRuns mem with is | kept
    · exact .inr is
    · rcases replaceRuns_chars kept with is | plain
      · exact .inr is
      · exact others c plain
  · exact collapse_single positive small (fun c mem => by cases mem) _

theorem replaced_joined (positive : 0 < least) (small : least ≤ 2) (mark : letter hyphen = false)
    (apart : ∀ c, other c = true → letter c = false)
    (others : ∀ c, other c = false → letter c = true ∨ c = hyphen) (text : List α) :
    replaced other hyphen least text = joined letter hyphen .start text := by
  have clean := replaced_clean letter positive small others text
  have none : ∀ c ∈ ([] : List α), letter c = false := fun c mem => (by cases mem)
  have hyphens : ∀ c, decide (c = hyphen) = true → letter c = false := by
    intro c is
    rw [of_decide_eq_true is]
    exact mark
  rw [← clean.joined mark]
  unfold replaced trim
  rw [joined_rdropWhile mark, joined_dropWhile mark, joined_replaceRuns positive mark hyphens none,
    List.nil_append, joined_replaceRuns Nat.one_pos mark apart none]
  rfl

end Dropway.Lib.Hyphens
