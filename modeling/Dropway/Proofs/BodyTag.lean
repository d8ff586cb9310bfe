import Dropway.Edge.Banner

/-! Where markup is put into a page. The body tag is found in the lowercased page, and
its index is used in the page itself; the two agree as long as nothing before the tag
gets longer in lower case. -/

namespace Dropway.Edge
open Lib Units

/-! ### Where it belongs -/

/-- The letters of a tag's beginning, in either case. -/
def bodyLetters : List (UInt16 → Bool) :=
  [fun u => u = unit '<', fun u => u = unit 'b' || u = unit 'B', fun u => u = unit 'o' || u = unit 'O',
   fun u => u = unit 'd' || u = unit 'D', fun u => u = unit 'y' || u = unit 'Y']

/-- What is left of the text after units that pass the tests. -/
def after : List (UInt16 → Bool) → Units → Option Units
  | [], text => some text
  | _ :: _, [] => none
  | test :: tests, u :: rest => if test u then after tests rest else none

def isBodyTag (html : Units) : Bool :=
  match after bodyLetters html with
  | none => false
  | some rest => endsTagName rest.head?

/-- The first body tag outside comments; `skip` units belong to a comment. -/
def bodyTagFrom : Nat → Units → Option Nat
  | _, [] => none
  | skip + 1, _ :: rest => (bodyTagFrom skip rest).map (· + 1)
  | 0, first :: rest =>
    if (ofText "<!--".toList).isPrefixOf (first :: rest) then
      match indexOf (ofText "-->".toList) ((first :: rest).drop 4) with
      | none => none
      | some found => (bodyTagFrom (found + 6) rest).map (· + 1)
    else if isBodyTag (first :: rest) then some 0
    else (bodyTagFrom 0 rest).map (· + 1)

def bodyTag (html : Units) : Option Nat := bodyTagFrom 0 html

/-- The open quote after one more unit. -/
def quoted (quote : Option UInt16) (c : UInt16) : Option UInt16 :=
  match quote with
  | some quote => if c = quote then none else some quote
  | none => if c = unit '"' ∨ c = unit '\'' then some c else none

/-- How long a tag is, through the `>` that closes it outside quotes. -/
def closing : Option UInt16 → Units → Option Nat
  | _, [] => none
  | quote, c :: rest =>
    if quote = none ∧ c = unit '>' then some 1 else (closing (quoted quote c) rest).map (· + 1)

/-- Right after the first body tag, or at the start. -/
def insertionPoint (html : Units) : Nat :=
  match bodyTag html with
  | none => 0
  | some start => ((closing none (html.drop start)).map (start + ·)).getD 0

/-- The markup is where it belongs, whatever it is. -/
def InjectsRight (endsWord : Units → Units → Bool) (html : Units) : Prop :=
  ∀ markup, injectAfterBodyOpen endsWord html markup =
    html.take (insertionPoint html) ++ markup ++ html.drop (insertionPoint html)

/-- The quote that is open after the units, as long as they do not close the tag. -/
def openAfter : Option UInt16 → Units → Option (Option UInt16)
  | quote, [] => some quote
  | quote, c :: rest => if quote = none ∧ c = unit '>' then none else openAfter (quoted quote c) rest

/-- How much longer the lower case of the text is: the dotted capital I has two units. -/
def longer (text : Units) : Nat := text.count 0x130

/-- As many units into the first body tag as the text before it gets longer, the tag is
still open and outside quotes; or it is closed from neither place. -/
def Aligned (html : Units) : Prop :=
  ∀ start, bodyTag html = some start →
    openAfter none ((html.drop start).take (longer (html.take start))) = some none ∨
      closing none (html.drop start) = none ∧ closing none (html.drop (start + longer (html.take start))) = none

/-! ### The end of a tag -/

private theorem map_shift (found : Option Nat) (j : Nat) : found.map (j + 1 + ·) = (found.map (· + 1)).map (j + ·) := by
  rw [Option.map_map]
  refine congrArg (fun f => found.map f) (funext fun n => ?_)
  simp only [Function.comp_apply]
  omega

theorem tagEndFrom_eq (quote : Option UInt16) (j : Nat) (text : Units) :
    tagEndFrom quote j text = (closing quote text).map (j + ·) := by
  induction text generalizing quote j with
  | nil => cases quote <;> rfl
  | cons c rest ih =>
    cases quote with
    | some quote =>
      have opened : ¬ (some quote = none ∧ c = unit '>') := fun both => Option.some_ne_none quote both.1
      rw [tagEndFrom, ih, closing, if_neg opened, map_shift]
      rfl
    | none =>
      rw [tagEndFrom, closing, ih, ih, map_shift, map_shift, quoted]
      by_cases opens : c = unit '"' ∨ c = unit '\''
      · have differ : c ≠ unit '>' := by
          rintro rfl
          exact absurd opens (by decide)
        rw [if_pos opens, if_neg (fun both => differ both.2), if_pos opens]
      · rw [if_neg opens, if_neg opens]
        by_cases closes : c = unit '>'
        · rw [if_pos closes, if_pos ⟨rfl, closes⟩]
          rfl
        · rw [if_neg closes, if_neg (fun both => closes both.2)]

theorem closing_openAfter {quote left : Option UInt16} {front : Units} (rest : Units)
    (reads : openAfter quote front = some left) :
    closing quote (front ++ rest) = (closing left rest).map (front.length + ·) := by
  induction front generalizing quote with
  | nil =>
    cases reads
    simp
  | cons c front ih =>
    rw [openAfter] at reads
    rw [List.cons_append, closing]
    by_cases closes : quote = none ∧ c = unit '>'
    · rw [if_pos closes] at reads
      cases reads
    · rw [if_neg closes] at reads ⊢
      rw [ih reads, List.length_cons, map_shift, Option.map_map, Option.map_map]
      refine congrArg (fun f => (closing left rest).map f) (funext fun n => ?_)
      simp only [Function.comp_apply]
      omega

theorem closing_short {quote : Option UInt16} {front : Units} (rest : Units) (closes : openAfter quote front = none) :
    ∃ n, closing quote (front ++ rest) = some n ∧ n ≤ front.length := by
  induction front generalizing quote with
  | nil => cases closes
  | cons c front ih =>
    rw [openAfter] at closes
    rw [List.cons_append, closing]
    by_cases here : quote = none ∧ c = unit '>'
    · rw [if_pos here]
      exact ⟨1, rfl, Nat.succ_le_succ (Nat.zero_le _)⟩
    · rw [if_neg here] at closes ⊢
      obtain ⟨n, same, short⟩ := ih closes
      exact ⟨n + 1, by rw [same]; rfl, Nat.succ_le_succ short⟩

theorem closing_positive {quote : Option UInt16} {text : Units} {n : Nat} (closes : closing quote text = some n) : 0 < n := by
  cases text with
  | nil => cases closes
  | cons c rest =>
    rw [closing] at closes
    split at closes
    · cases closes
      exact Nat.one_pos
    · obtain ⟨m, -, rfl⟩ := Option.map_eq_some_iff.mp closes
      exact Nat.succ_pos m

theorem closing_le {quote : Option UInt16} {text : Units} {n : Nat} (closes : closing quote text = some n) :
    n ≤ text.length := by
  induction text generalizing quote n with
  | nil => cases closes
  | cons c rest ih =>
    rw [closing] at closes
    split at closes
    · cases closes
      exact Nat.succ_le_succ (Nat.zero_le _)
    · obtain ⟨m, found, rfl⟩ := Option.map_eq_some_iff.mp closes
      exact Nat.succ_le_succ (ih found)

/-- A quote, or none. -/
def Quoting (state : Option UInt16) : Prop := state = none ∨ state = some (unit '"') ∨ state = some (unit '\'')

theorem quoted_quoting {state : Option UInt16} (quoting : Quoting state) (c : UInt16) : Quoting (quoted state c) := by
  cases state with
  | some quote =>
    simp only [quoted]
    split
    · exact .inl rfl
    · exact quoting
  | none =>
    simp only [quoted]
    split
    · rename_i opens
      exact .inr (opens.imp (congrArg some) (congrArg some))
    · exact .inl rfl

theorem openAfter_quoting {state left : Option UInt16} {text : Units} (quoting : Quoting state)
    (reads : openAfter state text = some left) : Quoting left := by
  induction text generalizing state with
  | nil =>
    cases reads
    exact quoting
  | cons c rest ih =>
    rw [openAfter] at reads
    split at reads
    · cases reads
    · exact ih (quoted_quoting quoting c) reads

/-- Two readings that differ in the open quote go on to differ. -/
theorem quoted_apart {one two : Option UInt16} (first : Quoting one) (second : Quoting two) (differ : one ≠ two) (c : UInt16) :
    quoted one c ≠ quoted two c := by
  have apart : unit '"' ≠ unit '\'' := by decide
  rcases first with rfl | rfl | rfl <;> rcases second with rfl | rfl | rfl
  all_goals first | exact absurd rfl differ | skip
  all_goals
    simp only [quoted]
    grind

/-- Readings that differ in the open quote do not close the tag at one place. -/
theorem closing_apart {one two : Option UInt16} (first : Quoting one) (second : Quoting two) (differ : one ≠ two)
    {text : Units} {n : Nat} (closes : closing one text = some n) : closing two text ≠ some n := by
  induction text generalizing one two n with
  | nil => cases closes
  | cons c rest ih =>
    intro also
    rw [closing] at closes also
    by_cases here : one = none ∧ c = unit '>'
    · by_cases there : two = none ∧ c = unit '>'
      · exact differ (here.1.trans there.1.symm)
      · rw [if_pos here] at closes
        rw [if_neg there] at also
        obtain ⟨m, found, same⟩ := Option.map_eq_some_iff.mp also
        cases closes
        have positive := closing_positive found
        omega
    · rw [if_neg here] at closes
      obtain ⟨m, found, rfl⟩ := Option.map_eq_some_iff.mp closes
      by_cases there : two = none ∧ c = unit '>'
      · rw [if_pos there] at also
        have positive := closing_positive found
        have same := Option.some.inj also
        omega
      · rw [if_neg there] at also
        obtain ⟨k, other, same⟩ := Option.map_eq_some_iff.mp also
        have equal : k = m := Nat.succ.inj same
        exact ih (quoted_quoting first c) (quoted_quoting second c) (quoted_apart first second differ c) found (equal ▸ other)

/-- Read from some units on, a tag ends where it ends if nothing is open and nothing is
closed there, or if it never ends either way. -/
theorem closing_drop (text : Units) (late : Nat) :
    (closing none (text.drop late)).map (late + ·) = closing none text ↔
      openAfter none (text.take late) = some none ∨ closing none text = none ∧ closing none (text.drop late) = none := by
  have whole : text.take late ++ text.drop late = text := List.take_append_drop late text
  have size {quote : Option UInt16} {n : Nat} (found : closing quote (text.drop late) = some n) :
      (text.take late).length = late := by
    have positive := closing_positive found
    have short := closing_le found
    rw [List.length_drop] at short
    rw [List.length_take]
    omega
  constructor
  · intro same
    cases reads : openAfter none (text.take late) with
    | none =>
      obtain ⟨n, ends, short⟩ := closing_short (text.drop late) reads
      rw [whole] at ends
      rw [ends] at same
      obtain ⟨m, found, sum⟩ := Option.map_eq_some_iff.mp same
      have positive := closing_positive found
      have most := size found
      omega
    | some left =>
      by_cases outside : left = none
      · exact .inl (congrArg some outside)
      · right
        have ends := closing_openAfter (text.drop late) reads
        rw [whole] at ends
        cases found : closing none (text.drop late) with
        | none =>
          rw [found] at same
          exact ⟨same.symm, rfl⟩
        | some n =>
          rw [found, ends] at same
          obtain ⟨m, other, sum⟩ := Option.map_eq_some_iff.mp same.symm
          rw [size found] at sum
          have equal : m = n := Nat.add_left_cancel sum
          have apart := closing_apart (.inl rfl) (openAfter_quoting (.inl rfl) reads) (Ne.symm outside) found
          exact absurd (equal ▸ other) apart
  · rintro (reads | ⟨first, second⟩)
    · have ends := closing_openAfter (text.drop late) reads
      rw [whole] at ends
      rw [ends]
      cases found : closing none (text.drop late) with
      | none => rfl
      | some n => rw [size found]
    · rw [first, second]
      rfl

/-! ### The lowercased page -/

/-- A unit of the lowercased page against a test on the page's own. -/
def Reads (mark : UInt16) (test : UInt16 → Bool) : Prop :=
  ∀ u piece, Lowered u piece → if test u then piece = [mark] else piece.head? ≠ some mark

theorem reads_exact {mark : UInt16} (small : mark.toNat < 0x80) (plain : ¬ (0x41 ≤ mark.toNat ∧ mark.toNat ≤ 0x5A))
    (noLetter : ¬ (0x61 ≤ mark.toNat ∧ mark.toNat ≤ 0x7A)) : Reads mark fun u => u = mark := by
  intro u piece lowered
  rcases lowered with ⟨rfl, rfl⟩ | ⟨-, v, rfl, lowers⟩
  · have differ : (0x130 : UInt16) ≠ mark := by
      rintro rfl
      exact absurd small (by decide)
    have apart : some (0x69 : UInt16) ≠ some mark := by
      rintro ⟨⟩
      exact noLetter (by decide)
    rw [if_neg (by simpa only [decide_eq_true_eq] using differ)]
    exact apart
  · by_cases same : u = mark
    · subst same
      rw [if_pos (decide_eq_true rfl)]
      have value := lowers.ascii small
      rw [if_neg plain] at value
      rw [UInt16.toNat_inj.mp value]
    · rw [if_neg (by simpa only [decide_eq_true_eq] using same)]
      intro head
      have equal : v = mark := Option.some.inj head
      subst equal
      by_cases ascii : u.toNat < 0x80
      · have value := lowers.ascii ascii
        split at value
        · omega
        · exact same (UInt16.toNat_inj.mp value.symm)
      · have value := lowers.beyond (not_lt.mp ascii)
        omega

/-- A small letter, but for k and i. -/
theorem reads_letter {mark capital : UInt16} (letter : 0x61 ≤ mark.toNat ∧ mark.toNat ≤ 0x7A)
    (other : mark.toNat ≠ 0x6B ∧ mark.toNat ≠ 0x69) (pair : capital.toNat + 32 = mark.toNat) :
    Reads mark fun u => u = mark || u = capital := by
  intro u piece lowered
  rcases lowered with ⟨rfl, rfl⟩ | ⟨-, v, rfl, lowers⟩
  · have differ : ¬ ((0x130 : UInt16) = mark ∨ (0x130 : UInt16) = capital) := by
      rintro (rfl | rfl)
      · exact absurd letter (by decide)
      · have value : (0x130 : UInt16).toNat = 0x130 := rfl
        omega
    rw [if_neg (by simpa only [Bool.or_eq_true, decide_eq_true_eq] using differ)]
    rintro ⟨⟩
    exact other.2 rfl
  · by_cases same : u = mark ∨ u = capital
    · rw [if_pos (by simpa only [Bool.or_eq_true, decide_eq_true_eq] using same)]
      have value := lowers.ascii (by rcases same with rfl | rfl <;> omega)
      have equal : v.toNat = mark.toNat := by
        rcases same with rfl | rfl
        · rw [value, if_neg (by omega)]
        · rw [value, if_pos (by omega), pair]
      rw [UInt16.toNat_inj.mp equal]
    · rw [if_neg (by simpa only [Bool.or_eq_true, decide_eq_true_eq] using same)]
      intro head
      have equal : v = mark := Option.some.inj head
      subst equal
      by_cases ascii : u.toNat < 0x80
      · have value := lowers.ascii ascii
        split at value
        · exact same (.inr (UInt16.toNat_inj.mp (by omega)))
        · exact same (.inl (UInt16.toNat_inj.mp value.symm))
      · have value := lowers.beyond (not_lt.mp ascii)
        omega

variable {html : Units} {pieces : List Units}

/-- Tests on the page are marks of its lower case. -/
theorem after_lowered {marks : Units} {tests : List (UInt16 → Bool)} (reads : List.Forall₂ Reads marks tests)
    (lowered : List.Forall₂ Lowered html pieces) :
    (after tests html = none ∧ ¬ marks <+: pieces.flatten) ∨
      ∃ front rest left, after tests html = some rest ∧ html = front ++ rest ∧ front.length = marks.length ∧
        longer front = 0 ∧ List.Forall₂ Lowered rest left ∧ pieces.flatten = marks ++ left.flatten := by
  induction reads generalizing html pieces with
  | nil => exact .inr ⟨[], html, pieces, rfl, rfl, rfl, rfl, lowered, rfl⟩
  | @cons mark test marks tests read _ ih =>
    cases lowered with
    | nil =>
      refine .inl ⟨rfl, fun begins => ?_⟩
      cases List.prefix_nil.mp begins
    | @cons u piece html pieces first others =>
      have how := read u piece first
      by_cases passes : test u = true
      · rw [if_pos passes] at how
        subst how
        have single : longer [u] = 0 := by
          rcases first with ⟨-, same⟩ | ⟨differ, -⟩
          · cases same
          · exact List.count_eq_zero.mpr fun mem => differ (List.mem_singleton.mp mem).symm
        simp only [after, passes, if_true, List.flatten_cons, List.singleton_append]
        rcases ih others with ⟨none, apart⟩ | ⟨front, rest, left, found, same, length, short, lowered, flat⟩
        · exact .inl ⟨none, fun begins => apart (List.cons_prefix_cons.mp begins).2⟩
        · refine .inr ⟨u :: front, rest, left, found, by rw [same]; rfl, by rw [List.length_cons, length]; rfl, ?_, lowered,
            by rw [flat]; rfl⟩
          have split : u :: front = [u] ++ front := rfl
          rw [longer, split, List.count_append]
          unfold longer at single short
          rw [single, short]
      · rw [if_neg passes] at how
        refine .inl ⟨by rw [after, if_neg passes], ?_⟩
        intro begins
        rcases first with ⟨-, rfl⟩ | ⟨-, v, rfl, -⟩
        · exact how (congrArg some (List.cons_prefix_cons.mp begins).1.symm)
        · exact how (congrArg some (List.cons_prefix_cons.mp begins).1.symm)

/-- The marks of comments. -/
def Exact (mark : UInt16) : Prop :=
  mark.toNat < 0x80 ∧ ¬ (0x41 ≤ mark.toNat ∧ mark.toNat ≤ 0x5A) ∧ ¬ (0x61 ≤ mark.toNat ∧ mark.toNat ≤ 0x7A)

instance (mark : UInt16) : Decidable (Exact mark) := inferInstanceAs (Decidable (_ ∧ _ ∧ _))

private theorem exact_all {part : Units} (checked : part.all (fun mark => decide (Exact mark)) = true) :
    ∀ mark ∈ part, Exact mark :=
  fun mark mem => of_decide_eq_true (List.all_eq_true.mp checked mark mem)

theorem after_exact {part html rest : Units} :
    after (part.map fun mark u => decide (u = mark)) html = some rest ↔ html = part ++ rest := by
  induction part generalizing html with
  | nil => exact ⟨fun same => by cases same; rfl, fun same => by rw [same]; rfl⟩
  | cons mark part ih =>
    cases html with
    | nil => exact ⟨(fun same => by cases same), (fun same => by cases same)⟩
    | cons u html =>
      rw [List.map_cons, after, List.cons_append, List.cons.injEq]
      by_cases same : u = mark
      · rw [if_pos (decide_eq_true same), ih]
        exact ⟨fun rest => ⟨same, rest⟩, And.right⟩
      · rw [if_neg (by simpa only [decide_eq_true_eq] using same)]
        exact ⟨(fun none => by cases none), fun both => absurd both.1 same⟩

/-- Exact marks are where they were. -/
theorem prefix_lowered {part : Units} (exact : ∀ mark ∈ part, Exact mark) (lowered : List.Forall₂ Lowered html pieces) :
    (¬ part <+: html ∧ ¬ part <+: pieces.flatten) ∨
      ∃ rest left, html = part ++ rest ∧ List.Forall₂ Lowered rest left ∧ pieces.flatten = part ++ left.flatten := by
  have reads : List.Forall₂ Reads part (part.map fun mark u => decide (u = mark)) := by
    induction part with
    | nil => exact .nil
    | cons mark part ih =>
      obtain ⟨small, plain, noLetter⟩ := exact mark List.mem_cons_self
      exact .cons (reads_exact small plain noLetter) (ih fun other mem => exact other (List.mem_cons_of_mem _ mem))
  rcases after_lowered reads lowered with ⟨none, apart⟩ | ⟨front, rest, left, found, -, -, -, others, flat⟩
  · refine .inl ⟨?_, apart⟩
    rintro ⟨rest, same⟩
    rw [after_exact.mpr same.symm] at none
    cases none
  · exact .inr ⟨rest, left, after_exact.mp found, others, flat⟩

theorem indexOf_cons {part rest : Units} {u : UInt16} (apart : ¬ part <+: u :: rest) :
    indexOf part (u :: rest) = (indexOf part rest).map (· + 1) := by
  rw [indexOf, if_neg (by rwa [List.isPrefixOf_iff_prefix])]

theorem indexOf_begins {part text : Units} (begins : part <+: text) : indexOf part text = some 0 := by
  cases text with
  | nil => rw [indexOf, if_pos (List.prefix_nil.mp begins)]
  | cons u rest => rw [indexOf, if_pos (List.isPrefixOf_iff_prefix.mpr begins)]

theorem longer_cons (u : UInt16) (text : Units) : longer (u :: text) = longer text + if u = 0x130 then 1 else 0 := by
  unfold longer
  rw [List.count_cons]
  simp only [beq_iff_eq]

/-- Marks are found later by as much as the text before them gets longer. -/
theorem indexOf_lowered {first : UInt16} {part : Units} (exact : ∀ mark ∈ first :: part, Exact mark)
    (lowered : List.Forall₂ Lowered html pieces) :
    indexOf (first :: part) pieces.flatten = (indexOf (first :: part) html).map fun n => n + longer (html.take n) := by
  induction lowered with
  | nil => rfl
  | @cons u piece html pieces head others ih =>
    rcases prefix_lowered exact (List.Forall₂.cons head others) with ⟨apart, lowerApart⟩ | ⟨rest, left, same, -, flat⟩
    · rw [indexOf_cons apart, Option.map_map]
      rcases head with ⟨rfl, rfl⟩ | ⟨plain, v, rfl, -⟩
      · have letter : ¬ (first :: part) <+: 0x69 :: 0x307 :: pieces.flatten := lowerApart
        have dot : ¬ (first :: part) <+: 0x307 :: pieces.flatten := by
          intro begins
          have far := exact first List.mem_cons_self
          rw [(List.cons_prefix_cons.mp begins).1] at far
          exact absurd far (by decide)
        have flat : ([0x69, 0x307] :: pieces).flatten = 0x69 :: 0x307 :: pieces.flatten := rfl
        rw [flat, indexOf_cons letter, indexOf_cons dot, ih, Option.map_map, Option.map_map]
        refine congrArg (fun f => (indexOf (first :: part) html).map f) (funext fun n => ?_)
        simp only [Function.comp_apply, List.take_succ_cons, longer_cons, if_true]
        omega
      · have flat : ([v] :: pieces).flatten = v :: pieces.flatten := rfl
        rw [flat] at lowerApart ⊢
        rw [indexOf_cons lowerApart, ih, Option.map_map]
        refine congrArg (fun f => (indexOf (first :: part) html).map f) (funext fun n => ?_)
        simp only [Function.comp_apply, List.take_succ_cons, longer_cons, if_neg plain]
        omega
    · have begins : first :: part <+: u :: html := ⟨rest, same.symm⟩
      have lowerBegins : first :: part <+: (piece :: pieces).flatten := ⟨left.flatten, flat.symm⟩
      rw [indexOf_begins begins, indexOf_begins lowerBegins]
      rfl

theorem endsTagName_lowered (lowered : List.Forall₂ Lowered html pieces) :
    endsTagName pieces.flatten.head? = endsTagName html.head? := by
  cases lowered with
  | nil => rfl
  | @cons u piece html pieces head others =>
    rcases head with ⟨rfl, rfl⟩ | ⟨plain, v, rfl, lowers⟩
    · rfl
    · have mark {m : UInt16} (exact : Exact m) : decide (v = m) = decide (u = m) := by
        have read := reads_exact exact.1 exact.2.1 exact.2.2 u [v] (.inr ⟨plain, v, rfl, lowers⟩)
        by_cases same : u = m
        · rw [if_pos (decide_eq_true same)] at read
          rw [decide_eq_decide]
          exact ⟨fun _ => same, fun _ => List.singleton_inj.mp read⟩
        · rw [if_neg (by simpa only [decide_eq_true_eq] using same)] at read
          rw [decide_eq_decide]
          exact ⟨fun equal => absurd (congrArg some equal) read, fun equal => absurd equal same⟩
      simp only [List.flatten_cons, List.singleton_append, List.head?_cons, endsTagName, lowers.space]
      rw [mark (by decide), mark (by decide)]

theorem bodyTag_lowered (lowered : List.Forall₂ Lowered html pieces) :
    ((ofText "<body".toList).isPrefixOf pieces.flatten && endsTagName pieces.flatten[5]?) = isBodyTag html := by
  have reads : List.Forall₂ Reads (ofText "<body".toList) bodyLetters := by
    refine .cons ?_ (.cons ?_ (.cons ?_ (.cons ?_ (.cons ?_ .nil))))
    · exact reads_exact (by decide) (by decide) (by decide)
    all_goals exact reads_letter (by decide) (by decide) (by decide)
  unfold isBodyTag
  rcases after_lowered reads lowered with ⟨none, apart⟩ | ⟨front, rest, left, found, same, length, -, others, flat⟩
  · rw [none, Bool.and_eq_false_imp]
    intro begins
    exact absurd (List.isPrefixOf_iff_prefix.mp begins) apart
  · have begins : (ofText "<body".toList).isPrefixOf pieces.flatten = true :=
      List.isPrefixOf_iff_prefix.mpr ⟨left.flatten, flat.symm⟩
    have next : pieces.flatten[5]? = left.flatten.head? := by
      rw [flat, List.head?_eq_getElem?]
      rfl
    rw [begins, found, next, endsTagName_lowered others]
    rfl

/-! ### The loop -/

theorem indexOf_spec {part text : Units} {n : Nat} (found : indexOf part text = some n) : part <+: text.drop n := by
  induction text generalizing n with
  | nil =>
    rw [indexOf] at found
    split at found
    · rename_i empty
      cases found
      rw [empty]
      exact List.nil_prefix
    · cases found
  | cons u rest ih =>
    rw [indexOf] at found
    split at found
    · rename_i begins
      cases found
      exact List.isPrefixOf_iff_prefix.mp begins
    · obtain ⟨m, later, rfl⟩ := Option.map_eq_some_iff.mp found
      exact ih later

/-- The marks that begin and end a comment have no dotted capitals. -/
private theorem longer_comment {rest : Units} {n : Nat} (found : indexOf (ofText "-->".toList) rest = some n) :
    longer ((ofText "!--".toList ++ rest).take (n + 6)) = longer (rest.take n) := by
  obtain ⟨others, ends⟩ := indexOf_spec found
  have marks : longer (ofText "!--".toList) = 0 ∧ longer (ofText "-->".toList) = 0 := by decide
  have size : (ofText "!--".toList).length = 3 ∧ (ofText "-->".toList).length = 3 := by decide
  have three : (rest.drop n).take 3 = ofText "-->".toList := by
    rw [← ends, List.take_append_of_le_length (by rw [size.2])]
    rfl
  have inside : rest.take (n + 3) = rest.take n ++ ofText "-->".toList := by
    rw [List.take_add, three]
  have front : (ofText "!--".toList ++ rest).take (n + 6) = ofText "!--".toList ++ rest.take (n + 3) := by
    rw [List.take_append, List.take_of_length_le (by omega), size.1]
    rfl
  unfold longer at marks ⊢
  rw [front, inside, List.count_append, List.count_append, marks.1, marks.2]
  omega

variable {page : Units}

private theorem bodyOpenFrom_plain {i : Nat} {c : UInt16} {rest : Units}
    (noComment : ¬ ofText "<!--".toList <+: c :: rest)
    (noTag : ((ofText "<body".toList).isPrefixOf (c :: rest) && endsTagName (c :: rest)[5]?) = false) :
    bodyOpenFrom page 0 i (c :: rest) = bodyOpenFrom page 0 (i + 1) rest := by
  rw [bodyOpenFrom, if_neg (by rwa [List.isPrefixOf_iff_prefix]), if_neg (by rw [noTag]; exact Bool.false_ne_true)]

/-- The loop finds the body tag of the page, at the index that it has in lower case. -/
theorem bodyOpenFrom_lowered (lowered : List.Forall₂ Lowered html pieces) (skip i : Nat) :
    bodyOpenFrom page (skip + longer (html.take skip)) i pieces.flatten =
      (bodyTagFrom skip html).bind fun start => tagEnd page (i + start + longer (html.take start)) := by
  induction lowered generalizing skip i with
  | nil => cases skip + longer (([] : Units).take skip) <;> cases skip <;> rfl
  | @cons u piece html pieces head others ih =>
    have onward (skip : Nat) (at_ : Nat) (moved : at_ = i + 1 + if u = 0x130 then 1 else 0) :
        bodyOpenFrom page (skip + longer (html.take skip)) at_ pieces.flatten =
          ((bodyTagFrom skip html).map (· + 1)).bind fun start =>
            tagEnd page (i + start + longer ((u :: html).take start)) := by
      rw [ih skip at_, Option.bind_map]
      refine congrArg (fun f => (bodyTagFrom skip html).bind f) (funext fun start => ?_)
      simp only [Function.comp_apply, List.take_succ_cons, longer_cons]
      refine congrArg (tagEnd page) ?_
      omega
    cases skip with
    | succ skip =>
      rw [bodyTagFrom, List.take_succ_cons, longer_cons]
      rcases head with ⟨rfl, rfl⟩ | ⟨plain, v, rfl, -⟩
      · have flat : ([0x69, 0x307] :: pieces).flatten = 0x69 :: 0x307 :: pieces.flatten := rfl
        have two : skip + 1 + (longer (html.take skip) + if (0x130 : UInt16) = 0x130 then 1 else 0) =
            skip + longer (html.take skip) + 1 + 1 := by
          rw [if_pos rfl]
          omega
        rw [flat, two, bodyOpenFrom, bodyOpenFrom]
        exact onward skip _ (by rw [if_pos rfl])
      · have flat : ([v] :: pieces).flatten = v :: pieces.flatten := rfl
        have one : skip + 1 + (longer (html.take skip) + if u = 0x130 then 1 else 0) =
            skip + longer (html.take skip) + 1 := by
          rw [if_neg plain]
          omega
        rw [flat, one, bodyOpenFrom]
        exact onward skip _ (by rw [if_neg plain])
    | zero =>
      have exact := exact_all (show (ofText "<!--".toList).all (fun mark => decide (Exact mark)) = true by decide)
      have dashes := exact_all (show (ofText "-->".toList).all (fun mark => decide (Exact mark)) = true by decide)
      have tag := bodyTag_lowered (List.Forall₂.cons head others)
      have zero : 0 + longer [] = 0 := rfl
      rw [List.take_zero, bodyTagFrom]
      rcases prefix_lowered exact (List.Forall₂.cons head others) with ⟨apart, lowerApart⟩ | ⟨rest, left, same, after, flat⟩
      · rw [if_neg (by rwa [List.isPrefixOf_iff_prefix]), zero]
        by_cases tagged : isBodyTag (u :: html) = true
        · obtain ⟨c, text, flat⟩ : ∃ c text, (piece :: pieces).flatten = c :: text := by
            rcases head with ⟨-, rfl⟩ | ⟨-, v, rfl, -⟩
            · exact ⟨_, _, rfl⟩
            · exact ⟨_, _, rfl⟩
          rw [tagged, flat] at tag
          rw [flat] at lowerApart ⊢
          rw [if_pos tagged, bodyOpenFrom, if_neg (by rwa [List.isPrefixOf_iff_prefix]), if_pos tag]
          rfl
        · rw [if_neg tagged]
          rw [Bool.not_eq_true] at tagged
          rw [tagged] at tag
          have next := onward 0 (i + 1 + if u = 0x130 then 1 else 0) rfl
          rw [List.take_zero, zero] at next
          rw [← next]
          rcases head with ⟨rfl, rfl⟩ | ⟨plain, v, rfl, -⟩
          · have flat : ([0x69, 0x307] :: pieces).flatten = 0x69 :: 0x307 :: pieces.flatten := rfl
            rw [flat] at tag lowerApart ⊢
            rw [bodyOpenFrom_plain lowerApart tag, bodyOpenFrom_plain, if_pos rfl]
            · intro begins
              exact absurd (List.cons_prefix_cons.mp begins).1 (by decide)
            · rfl
          · have flat : ([v] :: pieces).flatten = v :: pieces.flatten := rfl
            rw [flat] at tag lowerApart ⊢
            rw [bodyOpenFrom_plain lowerApart tag, if_neg plain]
      · have begins : ofText "<!--".toList <+: u :: html := ⟨rest, same.symm⟩
        have tail : html = ofText "!--".toList ++ rest := List.tail_eq_of_cons_eq same
        have less : u = unit '<' := List.head_eq_of_cons_eq same
        have single : piece.length = 1 := by
          rcases head with ⟨dotted, -⟩ | ⟨-, v, rfl, -⟩
          · rw [less] at dotted
            exact absurd dotted (by decide)
          · rfl
        obtain ⟨v, rfl⟩ := List.length_eq_one_iff.mp single
        have lowerTail : pieces.flatten = ofText "!--".toList ++ left.flatten := List.tail_eq_of_cons_eq flat
        have lowerBegins : ofText "<!--".toList <+: v :: pieces.flatten := ⟨left.flatten, flat.symm⟩
        have dropped : (u :: html).drop 4 = rest := by rw [tail]; rfl
        have lowerDropped : (v :: pieces.flatten).drop 4 = left.flatten := by rw [lowerTail]; rfl
        have flattened : ([v] :: pieces).flatten = v :: pieces.flatten := rfl
        have found : indexOf (ofText "-->".toList) left.flatten =
            (indexOf (ofText "-->".toList) rest).map fun n => n + longer (rest.take n) := indexOf_lowered dashes after
        rw [if_pos (List.isPrefixOf_iff_prefix.mpr begins), zero, flattened, bodyOpenFrom,
          if_pos (List.isPrefixOf_iff_prefix.mpr lowerBegins), dropped, lowerDropped, found]
        cases ends : indexOf (ofText "-->".toList) rest with
        | none => rfl
        | some n =>
          have next := onward (n + 6) (i + 1) (by rw [less]; rfl)
          rw [tail, longer_comment ends, ← tail] at next
          have skipped : n + longer (rest.take n) + 6 = n + 6 + longer (rest.take n) := by omega
          simp only [Option.map_some, skipped]
          exact next

theorem bodyOpenEnd_eq (endsWord : Units → Units → Bool) (html : Units) :
    bodyOpenEnd endsWord html =
      (bodyTag html).bind fun start => tagEnd html (start + longer (html.take start)) := by
  obtain ⟨pieces, lowered, flat⟩ := lowerFrom_lowered endsWord [] html
  have found : bodyOpenFrom html (0 + longer (html.take 0)) 0 pieces.flatten =
      (bodyTagFrom 0 html).bind fun start => tagEnd html (0 + start + longer (html.take start)) :=
    bodyOpenFrom_lowered lowered 0 0
  unfold bodyOpenEnd toLowerCase
  rw [flat]
  refine found.trans (congrArg (fun f => (bodyTag html).bind f) (funext fun start => ?_))
  rw [Nat.zero_add]

/-! ### Where the markup lands -/

private theorem splice_lt {text : Units} {one two : Nat} (less : one < two) (second : two ≤ text.length) :
    ∃ markup : Units, text.take one ++ markup ++ text.drop one ≠ text.take two ++ markup ++ text.drop two := by
  have inside : one < text.length := by omega
  refine ⟨[text[one] + 1], fun same => ?_⟩
  have left : (text.take one ++ [text[one] + 1] ++ text.drop one)[one]? = some (text[one] + 1) := by
    rw [List.append_assoc, List.getElem?_append_right (by rw [List.length_take]; omega), List.length_take,
      Nat.min_eq_left inside.le, Nat.sub_self]
    rfl
  have right : (text.take two ++ [text[one] + 1] ++ text.drop two)[one]? = some text[one] := by
    rw [List.append_assoc, List.getElem?_append_left (by rw [List.length_take]; omega), List.getElem?_take_of_lt less,
      List.getElem?_eq_getElem inside]
  rw [same, right] at left
  have equal := Option.some.inj left
  have value := congrArg UInt16.toNat equal
  rw [UInt16.toNat_add] at value
  have small := (text[one]).toNat_lt
  have one : (1 : UInt16).toNat = 1 := rfl
  omega

/-- Two places of a text are told apart by a unit that differs. -/
theorem splice_inj {text : Units} {one two : Nat} (first : one ≤ text.length) (second : two ≤ text.length)
    (same : ∀ markup : Units, text.take one ++ markup ++ text.drop one = text.take two ++ markup ++ text.drop two) :
    one = two := by
  rcases lt_trichotomy one two with less | equal | more
  · obtain ⟨markup, differ⟩ := splice_lt less second
    exact absurd (same markup) differ
  · exact equal
  · obtain ⟨markup, differ⟩ := splice_lt more first
    exact absurd (same markup).symm differ

theorem place_le {start : Nat} : ((closing none (html.drop start)).map (start + ·)).getD 0 ≤ html.length := by
  cases found : closing none (html.drop start) with
  | none => exact Nat.zero_le _
  | some n =>
    have short := closing_le found
    have positive := closing_positive found
    rw [List.length_drop] at short
    simp only [Option.map_some, Option.getD_some]
    omega

private theorem getD_map {one two : Option Nat} {a b : Nat} (first : ∀ n, one = some n → 0 < n)
    (second : ∀ n, two = some n → 0 < n) :
    (one.map (a + ·)).getD 0 = (two.map (b + ·)).getD 0 ↔ one.map (a + ·) = two.map (b + ·) := by
  cases one with
  | none =>
    cases two with
    | none => exact ⟨fun _ => rfl, fun _ => rfl⟩
    | some n =>
      have positive := second n rfl
      simp only [Option.map_none, Option.map_some, Option.getD_none, Option.getD_some, reduceCtorEq, iff_false]
      omega
  | some m =>
    have positive := first m rfl
    cases two with
    | none =>
      simp only [Option.map_none, Option.map_some, Option.getD_none, Option.getD_some, reduceCtorEq, iff_false]
      omega
    | some n => simp only [Option.map_some, Option.getD_some, Option.some.injEq]

private theorem map_add {one two : Option Nat} {start late : Nat} :
    one.map (start + late + ·) = two.map (start + ·) ↔ one.map (late + ·) = two := by
  cases one with
  | none => cases two <;> simp
  | some m =>
    cases two with
    | none => simp
    | some n =>
      simp only [Option.map_some, Option.some.injEq]
      omega

/-- The markup lands right after the first body tag, or at the start, exactly if the
lowercased page is aligned with the page there. -/
theorem inject_right_iff (endsWord : Units → Units → Bool) (html : Units) :
    InjectsRight endsWord html ↔ Aligned html := by
  have injects (markup : Units) : injectAfterBodyOpen endsWord html markup =
      html.take ((bodyOpenEnd endsWord html).getD 0) ++ markup ++ html.drop ((bodyOpenEnd endsWord html).getD 0) := by
    unfold injectAfterBodyOpen
    cases bodyOpenEnd endsWord html <;> rfl
  have found := bodyOpenEnd_eq endsWord html
  unfold InjectsRight Aligned
  simp only [injects]
  cases tag : bodyTag html with
  | none =>
    rw [tag] at found
    rw [found, insertionPoint, tag]
    exact ⟨(fun _ start none => by cases none), fun _ markup => rfl⟩
  | some start =>
    rw [tag, Option.bind_some, tagEnd, tagEndFrom_eq] at found
    rw [found, insertionPoint, tag]
    have places : (∀ markup : Units,
        html.take (((closing none (html.drop (start + longer (html.take start)))).map
          (start + longer (html.take start) + ·)).getD 0) ++ markup ++
        html.drop (((closing none (html.drop (start + longer (html.take start)))).map
          (start + longer (html.take start) + ·)).getD 0) =
        html.take (((closing none (html.drop start)).map (start + ·)).getD 0) ++ markup ++
        html.drop (((closing none (html.drop start)).map (start + ·)).getD 0)) ↔
        ((closing none (html.drop (start + longer (html.take start)))).map (start + longer (html.take start) + ·)).getD 0 =
          ((closing none (html.drop start)).map (start + ·)).getD 0 :=
      ⟨splice_inj place_le place_le, fun same markup => by rw [same]⟩
    refine places.trans ?_
    rw [getD_map (fun _ => closing_positive) (fun _ => closing_positive), map_add, ← List.drop_drop, closing_drop]
    constructor
    · intro aligned other here
      cases here
      rwa [← List.drop_drop]
    · intro aligned
      have here := aligned start rfl
      rwa [← List.drop_drop] at here

/-- A page of Turkish capitals: the markup lands inside the page's text. -/
theorem turkish_page_misplaced : ¬ ∀ (endsWord : Units → Units → Bool) (html : Units), InjectsRight endsWord html := by
  intro right
  have misplaced := right (fun _ _ => false) (ofText "İİİİİİİ<body><p>hi</p>".toList) (ofText "!".toList)
  exact absurd misplaced (by decide +kernel)

end Dropway.Edge
