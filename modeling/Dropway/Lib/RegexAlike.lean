import Mathlib.Data.List.Forall2
import Dropway.Lib.Regex

/-! One regular expression over two sorts of characters: where its classes tell related
characters apart in the same way, it matches related texts in the same way. -/

namespace Dropway.Lib.Regex

variable {α β γ δ : Type} {R : α → β → Prop}

/-- Classes that agree on related characters. -/
def Agree (R : α → β → Prop) (p : α → Bool) (q : β → Bool) : Prop := ∀ a b, R a b → p a = q b

inductive Alike (R : α → β → Prop) : Regex α → Regex β → Prop
  | empty : Alike R empty empty
  | one {p : α → Bool} {q : β → Bool} (same : Agree R p q) : Alike R (one p) (one q)
  | many {p : α → Bool} {q : β → Bool} {greedy : Bool} (same : Agree R p q) : Alike R (many p greedy) (many q greedy)
  | seq {first second : Regex α} {first' second' : Regex β} (before : Alike R first first')
      (behind : Alike R second second') : Alike R (seq first second) (seq first' second')
  | alt {first second : Regex α} {first' second' : Regex β} (before : Alike R first first')
      (behind : Alike R second second') : Alike R (alt first second) (alt first' second')
  | group {name : Nat} {inner : Regex α} {inner' : Regex β} (within : Alike R inner inner') :
      Alike R (group name inner) (group name inner')
  | atEnd : Alike R atEnd atEnd

/-- Groups of the same names with related texts. -/
abbrev SameGroups (R : α → β → Prop) : Groups α → Groups β → Prop :=
  List.Forall₂ fun one other => one.1 = other.1 ∧ List.Forall₂ R one.2 other.2

theorem rel_or {S : γ → δ → Prop} {first second : Option γ} {first' second' : Option δ}
    (before : Option.Rel S first first') (behind : Option.Rel S second second') :
    Option.Rel S (first.or second) (first'.or second') := by
  cases before with
  | none => exact behind
  | some related => exact .some related

theorem repeated_alike {S : γ → δ → Prop} {p : α → Bool} {q : β → Bool} (same : Agree R p q) (greedy : Bool)
    {next : List α → Option γ} {next' : List β → Option δ}
    (follows : ∀ text text', List.Forall₂ R text text' → Option.Rel S (next text) (next' text'))
    {text : List α} {text' : List β} (related : List.Forall₂ R text text') :
    Option.Rel S (repeated p greedy next text) (repeated q greedy next' text') := by
  induction related with
  | nil => exact follows [] [] .nil
  | @cons a b rest rest' first later ih =>
    have here := follows (a :: rest) (b :: rest') (.cons first later)
    have more : Option.Rel S (if p a then repeated p greedy next rest else none)
        (if q b then repeated q greedy next' rest' else none) := by
      rw [same a b first]
      split
      · exact ih
      · exact .none
    unfold repeated
    cases greedy with
    | true => exact rel_or more here
    | false => exact rel_or here more

theorem run_alike {S : γ → δ → Prop} {regex : Regex α} {regex' : Regex β} (alike : Alike R regex regex')
    {next : Groups α → List α → Option γ} {next' : Groups β → List β → Option δ}
    (follows : ∀ groups groups' text text', SameGroups R groups groups' → List.Forall₂ R text text' →
      Option.Rel S (next groups text) (next' groups' text'))
    {groups : Groups α} {groups' : Groups β} {text : List α} {text' : List β} (known : SameGroups R groups groups')
    (related : List.Forall₂ R text text') :
    Option.Rel S (regex.run next groups text) (regex'.run next' groups' text') := by
  induction alike generalizing next next' groups groups' text text' with
  | empty => exact follows _ _ _ _ known related
  | one same =>
    cases related with
    | nil => exact .none
    | cons first later =>
      rw [run, run, same _ _ first]
      split
      · exact follows _ _ _ _ known later
      · exact .none
  | many same => exact repeated_alike same _ (fun _ _ => follows _ _ _ _ known) related
  | seq before behind firstIh secondIh =>
    exact firstIh (fun _ _ _ _ known related => secondIh follows known related) known related
  | alt before behind firstIh secondIh =>
    exact rel_or (firstIh follows known related) (secondIh follows known related)
  | group within ih =>
    refine ih (fun _ _ rest rest' known' left => ?_) known related
    apply follows _ _ _ _ _ left
    refine .cons ⟨rfl, ?_⟩ known'
    rw [related.length_eq, left.length_eq]
    exact List.forall₂_take _ related
  | atEnd =>
    cases related with
    | nil => exact follows _ _ _ _ known .nil
    | cons first later => exact .none

theorem exec_alike {regex : Regex α} {regex' : Regex β} (alike : Alike R regex regex') {text : List α} {text' : List β}
    (related : List.Forall₂ R text text') :
    Option.Rel (fun found found' => SameGroups R found.1 found'.1 ∧ List.Forall₂ R found.2 found'.2)
      (regex.exec text) (regex'.exec text') :=
  run_alike alike (fun _ _ _ _ known left => .some ⟨known, left⟩) .nil related

theorem test_alike {regex : Regex α} {regex' : Regex β} (alike : Alike R regex regex') {text : List α} {text' : List β}
    (related : List.Forall₂ R text text') : regex.test text = regex'.test text' := by
  have found := exec_alike alike related
  unfold test
  generalize regex.exec text = one at found
  generalize regex'.exec text' = other at found
  cases found with
  | none => rfl
  | some both => rfl

theorem get_alike {groups : Groups α} {groups' : Groups β} (known : SameGroups R groups groups') (name : Nat) :
    List.Forall₂ R (groups.get name) (groups'.get name) := by
  unfold Groups.get
  induction known with
  | nil => exact .nil
  | @cons one other rest rest' first later ih =>
    obtain ⟨key, text⟩ := one
    obtain ⟨key', text'⟩ := other
    obtain ⟨rfl, related⟩ := first
    rw [List.lookup_cons, List.lookup_cons]
    cases name == key with
    | true => exact related
    | false => exact ih

theorem replaceFrom_alike {σ τ : Type} {S : σ → τ → Prop} {regex : Regex α} {regex' : Regex β}
    (alike : Alike R regex regex') {by_ : σ → Groups α → List α × σ} {by' : τ → Groups β → List β × τ}
    (replaces : ∀ state state' groups groups', S state state' → SameGroups R groups groups' →
      List.Forall₂ R (by_ state groups).1 (by' state' groups').1 ∧ S (by_ state groups).2 (by' state' groups').2)
    (skip : Nat) {state : σ} {state' : τ} (here : S state state') {text : List α} {text' : List β}
    (related : List.Forall₂ R text text') :
    List.Forall₂ R (replaceFrom regex by_ skip state text).1 (replaceFrom regex' by' skip state' text').1 ∧
      S (replaceFrom regex by_ skip state text).2 (replaceFrom regex' by' skip state' text').2 := by
  induction related generalizing skip state state' with
  | nil =>
    cases skip with
    | zero => exact ⟨.nil, here⟩
    | succ skip => exact ⟨.nil, here⟩
  | @cons a b rest rest' first later ih =>
    cases skip with
    | succ skip => exact ih skip here
    | zero =>
      have found := exec_alike alike (List.Forall₂.cons first later)
      unfold replaceFrom
      generalize regex.exec (a :: rest) = one at found
      generalize regex'.exec (b :: rest') = other at found
      cases found with
      | none => exact ⟨.cons first (ih 0 here).1, (ih 0 here).2⟩
      | @some one other both =>
        obtain ⟨known, left⟩ := both
        obtain ⟨becomes, state⟩ := replaces _ _ _ _ here known
        dsimp only
        rw [later.length_eq, left.length_eq]
        exact ⟨List.rel_append becomes (ih _ state).1, (ih _ state).2⟩

theorem replaceAll_alike {regex : Regex α} {regex' : Regex β} (alike : Alike R regex regex') {by_ : Groups α → List α}
    {by' : Groups β → List β}
    (replaces : ∀ groups groups', SameGroups R groups groups' → List.Forall₂ R (by_ groups) (by' groups'))
    {text : List α} {text' : List β} (related : List.Forall₂ R text text') :
    List.Forall₂ R (replaceAll regex by_ text) (replaceAll regex' by' text') :=
  (replaceFrom_alike (S := fun _ _ => True) alike (fun _ _ _ _ _ known => ⟨replaces _ _ known, trivial⟩) 0 trivial related).1

/-! ### The expressions that are built from others -/

theorem Alike.some_ {p : α → Bool} {q : β → Bool} (same : Agree R p q) : Alike R (some_ p) (some_ q) :=
  .seq (.one same) (.many same)

theorem Alike.optional {p : α → Bool} {q : β → Bool} (same : Agree R p q) : Alike R (optional p) (optional q) :=
  .alt (.one same) .empty

theorem Alike.upTo {p : α → Bool} {q : β → Bool} (same : Agree R p q) (n : Nat) : Alike R (upTo p n) (upTo q n) := by
  induction n with
  | zero => exact .one same
  | succ n ih => exact .seq (.one same) (.alt ih .empty)

theorem Alike.word {p : α → Bool} {q : β → Bool} (same : Agree R p q) (n : Nat) :
    Alike R (word (List.replicate n p)) (word (List.replicate n q)) := by
  induction n with
  | zero => exact .empty
  | succ n ih => exact .seq (.one same) ih

end Dropway.Lib.Regex
