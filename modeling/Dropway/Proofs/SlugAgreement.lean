import Dropway.Api.Slug
import Dropway.Lib.Scalars

/-! Slugify makes valid slugs and leaves them alone; the dashboard's proposal is the same
slug exactly if the cut falls on no hyphen and no dotted capital I stands before a
letter in what is kept. -/

namespace Dropway.Api
open Lib Lib.Hyphens Lib.RuneCase

/-- The letters and digits of a name, with single hyphens between its words. -/
abbrev hyphenated (text : Text) : Text := joined isSlugChar '-' .start (lowered text)

/-! ### The grammar -/

theorem slugChar_iff {c : Char} :
    isSlugChar c = true ↔ 0x61 ≤ c.toNat ∧ c.toNat ≤ 0x7A ∨ 0x30 ≤ c.toNat ∧ c.toNat ≤ 0x39 := by
  unfold isSlugChar Char.isLower Char.isDigit
  simp only [Bool.or_eq_true, Bool.and_eq_true, decide_eq_true_eq]
  rfl

theorem hyphen_mark : isSlugChar '-' = false := rfl

theorem nonSlug_apart {c : Char} (other : nonSlug c = true) : isSlugChar c = false := by
  unfold nonSlug at other
  rw [Bool.not_eq_true', Bool.or_eq_false_iff] at other
  exact other.1

theorem nonSlug_others {c : Char} (plain : nonSlug c = false) : isSlugChar c = true ∨ c = '-' := by
  unfold nonSlug at plain
  rwa [Bool.not_eq_false', Bool.or_eq_true, decide_eq_true_eq] at plain

theorem slugChar_ne {c : Char} (is : isSlugChar c = true) : c ≠ '-' := by
  intro same
  rw [same, hyphen_mark] at is
  cases is

theorem single_iff {text : Text} :
    text.IsChain (fun c d => ¬ (c = '-' ∧ d = '-')) ↔ ¬ ['-', '-'] <:+: text := by
  rw [List.isChain_iff_forall_rel_of_append_cons_cons]
  constructor
  · intro apart inside
    obtain ⟨front, back, whole⟩ := inside
    rw [List.append_assoc] at whole
    exact apart whole.symm ⟨rfl, rfl⟩
  · intro none c d front back whole both
    obtain ⟨rfl, rfl⟩ := both
    exact none ⟨front, back, by rw [whole, List.append_assoc]; rfl⟩

theorem slugPattern_iff {text : Text} : slugPattern text = true ↔ text ≠ [] ∧ text.length ≤ 63 ∧
    (∀ c ∈ text, isSlugChar c = true ∨ c = '-') ∧ (∀ c ∈ text.head?, c ≠ '-') ∧ ∀ c ∈ text.getLast?, c ≠ '-' := by
  cases text with
  | nil => exact iff_of_false Bool.false_ne_true fun is => is.1 rfl
  | cons first rest =>
    have starts : (∀ c ∈ (first :: rest).head?, c ≠ '-') ↔ first ≠ '-' := by
      rw [List.head?_cons]
      exact ⟨fun all => all first rfl, fun is c mem => (by cases mem; exact is)⟩
    rw [slugPattern, Bool.and_eq_true, List.forall_mem_cons, starts, List.length_cons, Nat.succ_le_succ_iff]
    rcases List.eq_nil_or_concat' rest with rfl | ⟨front, last, rfl⟩
    · constructor
      · intro is
        refine ⟨List.cons_ne_nil _ _, Nat.zero_le _, ⟨.inl is.1, fun c mem => (by cases mem)⟩, slugChar_ne is.1, ?_⟩
        intro c mem
        cases mem
        exact slugChar_ne is.1
      · intro is
        exact ⟨is.2.2.1.1.resolve_right is.2.2.2.1, rfl⟩
    · have ending : (first :: (front ++ [last])).getLast? = some last := by
        rw [← List.cons_append, List.getLast?_concat]
      rw [ending, List.getLast?_concat, List.dropLast_concat]
      simp only [Bool.and_eq_true, List.all_eq_true, Bool.or_eq_true, decide_eq_true_eq]
      constructor
      · intro is
        obtain ⟨start, ⟨short, inner⟩, closing⟩ := is
        refine ⟨List.cons_ne_nil _ _, short, ⟨.inl start, ?_⟩, slugChar_ne start, ?_⟩
        · intro c mem
          rcases List.mem_append.mp mem with inside | here
          · exact inner c inside
          · rw [List.mem_singleton.mp here]
            exact .inl closing
        · intro c mem
          cases mem
          exact slugChar_ne closing
      · intro is
        obtain ⟨-, short, ⟨start, inner⟩, head, closing⟩ := is
        have final := inner last (List.mem_append_right _ (List.mem_singleton_self _))
        refine ⟨start.resolve_right head, ⟨short, fun c mem => inner c (List.mem_append_left _ mem)⟩, ?_⟩
        exact final.resolve_right (closing last rfl)

theorem validSlug_iff {text : Text} :
    validSlug text = true ↔ text ≠ [] ∧ text.length ≤ 63 ∧ Clean isSlugChar '-' text := by
  rw [validSlug, Bool.and_eq_true, slugPattern_iff, Bool.not_eq_true', decide_eq_false_iff_not, ← single_iff]
  constructor
  · intro is
    obtain ⟨⟨some, short, chars, head, last⟩, single⟩ := is
    exact ⟨some, short, chars, single, head, last⟩
  · intro is
    obtain ⟨some, short, clean⟩ := is
    exact ⟨⟨some, short, clean.chars, clean.head, clean.last⟩, clean.single⟩

/-! ### Slugify -/

theorem hyphenated_clean (text : Text) : Clean isSlugChar '-' (hyphenated text) := by
  have clean := replaced_clean isSlugChar Nat.one_pos (Nat.le_succ 1)
    (fun c plain => nonSlug_others plain) (lowered text)
  rwa [replaced_joined isSlugChar Nat.one_pos (Nat.le_succ 1) hyphen_mark (fun c => nonSlug_apart)
    (fun c => nonSlug_others)] at clean

theorem uncut {text : Text} (clean : Clean isSlugChar '-' text) : text.rdropWhile (· = '-') = text := by
  rw [List.rdropWhile_eq_self_iff]
  intro some is
  exact clean.last _ (List.getLast?_eq_some_getLast some) (of_decide_eq_true is)

theorem slugify_eq (text : Text) : slugify text = ((hyphenated text).take 63).rdropWhile (· = '-') := by
  have joined : replaced nonSlug '-' 1 (lowered text) = hyphenated text :=
    replaced_joined isSlugChar Nat.one_pos (Nat.le_succ 1) hyphen_mark (fun c => nonSlug_apart) (fun c => nonSlug_others) _
  change (if 63 < (replaced nonSlug '-' 1 (lowered text)).length then
    ((replaced nonSlug '-' 1 (lowered text)).take 63).rdropWhile (· = '-') else replaced nonSlug '-' 1 (lowered text)) = _
  rw [joined]
  by_cases long : 63 < (hyphenated text).length
  · rw [if_pos long]
  · rw [if_neg long, List.take_of_length_le (Nat.le_of_not_lt long), uncut (hyphenated_clean text)]

theorem slugify_length (text : Text) : (slugify text).length ≤ 63 := by
  rw [slugify_eq]
  exact ((List.rdropWhile_prefix _ _).length_le.trans (List.length_take_le 63 _))

theorem slugify_valid (text : Text) : slugify text = [] ∨ validSlug (slugify text) = true := by
  by_cases none : slugify text = []
  · exact .inl none
  · refine .inr (validSlug_iff.mpr ⟨none, slugify_length text, ?_⟩)
    rw [slugify_eq]
    exact (hyphenated_clean text).cut 63

theorem toLower_slug {c : Char} (is : isSlugChar c = true ∨ c = '-') : toLower c = c := by
  have small : c.toNat < 0x41 ∨ 0x5A < c.toNat ∧ c.toNat < 0x80 := by
    rcases is with letter | rfl
    · rcases slugChar_iff.mp letter with low | digit
      · exact .inr ⟨by omega, by omega⟩
      · exact .inl (by omega)
    · exact .inl (by decide)
  apply Char.toNat_inj.mp
  rw [toLower_toNat, if_neg (by omega), Units.lowerPoint_ascii (by omega), if_neg (by omega)]

theorem slugify_of_valid {text : Text} (valid : validSlug text = true) : slugify text = text := by
  obtain ⟨-, short, clean⟩ := validSlug_iff.mp valid
  have same : lowered text = text := by
    unfold lowered
    rw [List.map_congr_left (fun c mem => toLower_slug (clean.chars c mem)), List.map_id']
  rw [slugify_eq, hyphenated, same, clean.joined hyphen_mark, List.take_of_length_le short, uncut clean]

theorem slugify_slugify (text : Text) : slugify (slugify text) = slugify text := by
  rcases slugify_valid text with none | valid
  · rw [none]
    rfl
  · exact slugify_of_valid valid

/-! ### Lower case in the dashboard -/

/-- What a name's lower case is in full. -/
def full (text : Text) : Text :=
  text.flatMap fun c => if c.toNat = 0x130 then ['i', Char.ofNat 0x307] else [toLower c]

/-- The units that a character's lower case is written with. -/
def WritesAs (c : Char) (units : Units) : Prop :=
  isSlugChar c = true ∧ units = [Units.unit c] ∨
    isSlugChar c = false ∧ units ≠ [] ∧ ∀ unit ∈ units, Dashboard.isSlugUnit unit = false

theorem slugUnit_unit {c : Char} (small : c.toNat < 0x10000) : Dashboard.isSlugUnit (Units.unit c) = isSlugChar c := by
  rw [Bool.eq_iff_iff, slugChar_iff]
  unfold Dashboard.isSlugUnit Units.unit
  rw [Units.toNat_ofNat small]
  simp only [Bool.or_eq_true, Bool.and_eq_true, decide_eq_true_eq]

theorem writes_unit {c : Char} (small : c.toNat < 0x10000) : WritesAs c [Units.unit c] := by
  cases is : isSlugChar c with
  | true => exact .inl ⟨is, rfl⟩
  | false =>
    refine .inr ⟨is, List.cons_ne_nil _ _, ?_⟩
    intro unit mem
    rw [List.mem_singleton.mp mem, slugUnit_unit small, is]

theorem lowerFrom_plain {endsWord : Units → Units → Bool} {unit : UInt16} (plain : Units.isHigh unit = false) (before rest : Units) :
    Units.lowerFrom endsWord before (unit :: rest) =
      Units.lowerUnit (endsWord before rest) unit ++ Units.lowerFrom endsWord (unit :: before) rest := by
  cases rest with
  | nil => exact (List.append_nil _).symm
  | cons low rest => rw [Units.lowerFrom, plain, Bool.false_and, if_neg Bool.false_ne_true]

theorem dotted_units (endsWord : Units → Units → Bool) (before : Units) {c : Char} (dotted : c.toNat = 0x130) (text : Text) :
    ∃ before', Units.lowerFrom endsWord before (Units.ofText (c :: text)) =
      Units.unit 'i' :: 0x307 :: Units.lowerFrom endsWord before' (Units.ofText text) := by
  obtain rfl : c = Char.ofNat 0x130 := by
    rw [← dotted, Char.ofNat_toNat]
  refine ⟨0x130 :: before, ?_⟩
  rw [Units.ofText_cons]
  exact lowerFrom_plain rfl before _

theorem char_units (endsWord : Units → Units → Bool) (before : Units) {c : Char} (not : c.toNat ≠ 0x130) (text : Text) :
    ∃ units before', Units.lowerFrom endsWord before (Units.ofText (c :: text)) =
      units ++ Units.lowerFrom endsWord before' (Units.ofText text) ∧ WritesAs (toLower c) units := by
  have value : (toLower c).toNat = Units.lowerPoint c.toNat := by rw [toLower_toNat, if_neg not]
  rw [Units.ofText_cons, Units.ofChar]
  by_cases small : c.toNat < 0x10000
  · rw [if_pos small]
    refine ⟨_, _, lowerFrom_plain (Bool.or_eq_false_iff.mp (Units.unit_plain small)).1 before _, ?_⟩
    have other : Units.unit c ≠ 0x130 := by
      intro same
      have point := congrArg UInt16.toNat same
      rw [Units.unit, Units.toNat_ofNat small] at point
      exact not point
    unfold Units.lowerUnit
    rw [if_neg other]
    split
    · rename_i sigma
      have point := congrArg UInt16.toNat sigma.1
      rw [Units.unit, Units.toNat_ofNat small] at point
      obtain rfl : c = Char.ofNat 0x3A3 := by
        rw [← Char.ofNat_toNat c, point]
        rfl
      refine .inr ⟨by decide +kernel, List.cons_ne_nil _ _, ?_⟩
      intro unit mem
      rw [List.mem_singleton.mp mem]
      decide
    · have written := writes_unit (c := toLower c) (by rw [value]; exact Units.lowerPoint_plane.mpr small)
      rw [Units.unit, value] at written
      rw [Units.unit, Units.toNat_ofNat small]
      exact written
  · have bound := Units.char_valid c
    obtain ⟨high, low, pair, isHigh, isLow, point⟩ := Units.pointPair_read (Nat.le_of_not_lt small) (by omega)
    have beyond : ¬ (toLower c).toNat < 0x10000 := fun below => small (Units.lowerPoint_plane.mp (value ▸ below))
    have bound' := Units.char_valid (toLower c)
    obtain ⟨high', low', pair', isHigh', isLow', -⟩ := Units.pointPair_read (Nat.le_of_not_lt beyond) (by omega)
    refine ⟨[high', low'], low :: high :: before, ?_, .inr ⟨?_, List.cons_ne_nil _ _, ?_⟩⟩
    · rw [if_neg small, pair, List.cons_append, List.singleton_append, Units.lowerFrom, isHigh, isLow, Bool.and_self,
        if_pos rfl, point, ← value, pair']
    · rw [Bool.eq_false_iff]
      intro letter
      have ascii := slugChar_iff.mp letter
      omega
    · simp only [Units.isHigh, Units.isLow, Bool.and_eq_true, decide_eq_true_eq] at isHigh' isLow'
      intro unit mem
      rw [Bool.eq_false_iff]
      intro letter
      unfold Dashboard.isSlugUnit at letter
      simp only [Bool.or_eq_true, Bool.and_eq_true, decide_eq_true_eq] at letter
      rcases List.mem_cons.mp mem with rfl | mem
      · omega
      · rw [List.mem_singleton] at mem
        subst mem
        omega

theorem full_dotted {c : Char} (dotted : c.toNat = 0x130) (text : Text) :
    full (c :: text) = 'i' :: Char.ofNat 0x307 :: full text := by
  unfold full
  rw [List.flatMap_cons, if_pos dotted]
  rfl

theorem full_other {c : Char} (not : c.toNat ≠ 0x130) (text : Text) : full (c :: text) = toLower c :: full text := by
  unfold full
  rw [List.flatMap_cons, if_neg not]
  rfl

theorem map_lead (place : Place) : (place.lead '-').map Units.unit = place.lead 0x2D := by
  cases place with
  | start => rfl
  | word => rfl
  | gap => rfl

/-- The same letters are read from the units as from the characters. -/
theorem joined_full (endsWord : Units → Units → Bool) (place : Place) (before : Units) (text : Text) :
    joined Dashboard.isSlugUnit 0x2D place (Units.lowerFrom endsWord before (Units.ofText text)) =
      (joined isSlugChar '-' place (full text)).map Units.unit := by
  induction text generalizing place before with
  | nil => rfl
  | cons c text ih =>
    by_cases dotted : c.toNat = 0x130
    · obtain ⟨before', units⟩ := dotted_units endsWord before dotted text
      have i : Dashboard.isSlugUnit (Units.unit 'i') = true := rfl
      have dot : Dashboard.isSlugUnit 0x307 = false := rfl
      have i' : isSlugChar 'i' = true := rfl
      have dot' : isSlugChar (Char.ofNat 0x307) = false := rfl
      rw [units, full_dotted dotted, joined_letter i, joined_other dot, joined_letter i', joined_other dot', ih,
        List.map_append, List.map_cons, map_lead]
    · obtain ⟨units, before', same, writes⟩ := char_units endsWord before dotted text
      rw [same, full_other dotted]
      rcases writes with ⟨letter, rfl⟩ | ⟨other, some, none⟩
      · have small : Dashboard.isSlugUnit (Units.unit (toLower c)) = true := by
          have ascii := slugChar_iff.mp letter
          rw [slugUnit_unit (by omega), letter]
        rw [List.singleton_append, joined_letter small, joined_letter letter, ih, List.map_append, List.map_cons, map_lead]
      · rw [joined_skip none some, joined_other other, ih]

/-! ### The two slugs -/

/-- A capital I with a dot right before a letter or digit comes at the earliest after `n` places. -/
def Late (place : Place) (text : Text) (n : Nat) : Prop :=
  ∀ before c after, text = before ++ 'İ' :: c :: after → isSlugChar (toLower c) = true →
    n ≤ (joined isSlugChar '-' place (lowered (before ++ ['İ']))).length

theorem dotted_eq {c : Char} (dotted : c.toNat = 0x130) : c = 'İ' := by
  rw [← Char.ofNat_toNat c, dotted]

theorem take_append_iff {α : Type} {front xs ys : List α} {n : Nat} :
    (front ++ xs).take n = (front ++ ys).take n ↔ xs.take (n - front.length) = ys.take (n - front.length) := by
  rw [List.take_append, List.take_append, List.append_cancel_left_eq]

/-- Reading one character first. -/
theorem joined_first (place : Place) (c : Char) (text : Text) :
    joined isSlugChar '-' place (c :: text) =
      joined isSlugChar '-' place [c] ++ joined isSlugChar '-' (after isSlugChar place [c]) text :=
  joined_append place [c] text

theorem joined_dotted (place : Place) (text : Text) : joined isSlugChar '-' place (lowered ('İ' :: text)) =
    joined isSlugChar '-' place ['i'] ++ joined isSlugChar '-' .word (lowered text) := by
  have i : isSlugChar 'i' = true := rfl
  change joined isSlugChar '-' place ('i' :: lowered text) = _
  rw [joined_first, after, if_pos i]
  rfl

theorem joined_dotted_full (place : Place) (text : Text) : joined isSlugChar '-' place (full ('İ' :: text)) =
    joined isSlugChar '-' place ['i'] ++ joined isSlugChar '-' .gap (full text) := by
  have i : isSlugChar 'i' = true := rfl
  have dot : isSlugChar (Char.ofNat 0x307) = false := rfl
  rw [full_dotted rfl, joined_first, after, if_pos i, after, joined_other dot]
  rfl

/-- Before what is no letter the gap opens anyway. -/
theorem joined_gap {d : Char} (other : isSlugChar (toLower d) = false) (text : Text) :
    joined isSlugChar '-' .word (lowered (d :: text)) = joined isSlugChar '-' .gap (lowered (d :: text)) :=
  (joined_other other .word _).trans (joined_other other .gap _).symm

theorem late_cons {place : Place} {c : Char} {text : Text} {n : Nat} (not : c.toNat ≠ 0x130) :
    Late place (c :: text) n ↔
      Late (after isSlugChar place [toLower c]) text (n - (joined isSlugChar '-' place [toLower c]).length) := by
  have one (before : Text) : (joined isSlugChar '-' place (lowered (c :: before ++ ['İ']))).length =
      (joined isSlugChar '-' place [toLower c]).length +
        (joined isSlugChar '-' (after isSlugChar place [toLower c]) (lowered (before ++ ['İ']))).length := by
    rw [← List.length_append, ← joined_first]
    rfl
  constructor
  · intro late before d rest split letter
    have far := late (c :: before) d rest (by rw [split]; rfl) letter
    rw [one] at far
    omega
  · intro late before d rest split letter
    cases before with
    | nil =>
      cases split
      exact absurd rfl not
    | cons first before =>
      obtain ⟨rfl, later⟩ := List.cons.inj split
      have far := late before d rest later letter
      rw [one]
      omega

theorem late_dotted {place : Place} {d : Char} {text : Text} {n : Nat} (other : isSlugChar (toLower d) = false) :
    Late place ('İ' :: d :: text) n ↔
      Late .gap (d :: text) (n - (joined isSlugChar '-' place ['i']).length) := by
  have one (before : Text) : (joined isSlugChar '-' place (lowered ('İ' :: d :: before))).length =
      (joined isSlugChar '-' place ['i']).length + (joined isSlugChar '-' .gap (lowered (d :: before))).length := by
    rw [joined_dotted, joined_gap other, List.length_append]
  constructor
  · intro late before c rest split letter
    have far := late ('İ' :: before) c rest (by rw [split]; rfl) letter
    cases before with
    | nil =>
      cases split
      cases other
    | cons first before =>
      obtain ⟨rfl, -⟩ := List.cons.inj split
      rw [List.cons_append, List.cons_append, one] at far
      exact Nat.sub_le_iff_le_add'.mpr far
  · intro late before c rest split letter
    cases before with
    | nil =>
      cases split
      rw [other] at letter
      cases letter
    | cons first before =>
      obtain ⟨rfl, later⟩ := List.cons.inj split
      have far := late before c rest later letter
      cases before with
      | nil =>
        cases later
        cases other
      | cons second before =>
        obtain ⟨rfl, -⟩ := List.cons.inj later
        rw [List.cons_append, List.cons_append, one]
        exact Nat.sub_le_iff_le_add'.mp far

theorem late_letter {place : Place} {d : Char} {text : Text} {n : Nat} (letter : isSlugChar (toLower d) = true) :
    Late place ('İ' :: d :: text) n ↔ n ≤ (joined isSlugChar '-' place ['i']).length := by
  constructor
  · intro late
    exact late [] d text rfl letter
  · intro far before c rest split _
    have least : ∃ more, before ++ ['İ'] = 'İ' :: more := by
      cases before with
      | nil => exact ⟨[], rfl⟩
      | cons first before =>
        obtain ⟨rfl, -⟩ := List.cons.inj split
        exact ⟨before ++ ['İ'], rfl⟩
    obtain ⟨more, same⟩ := least
    rw [same, joined_dotted, List.length_append]
    exact Nat.le_trans far (Nat.le_add_right _ _)

theorem full_head (d : Char) (text : Text) : ∃ more, full (d :: text) = toLower d :: more := by
  by_cases dotted : d.toNat = 0x130
  · obtain rfl := dotted_eq dotted
    exact ⟨_, full_dotted rfl text⟩
  · exact ⟨_, full_other dotted text⟩

theorem take_apart {α : Type} {x y : α} (apart : x ≠ y) {xs ys : List α} {n : Nat} :
    (x :: xs).take n = (y :: ys).take n ↔ n = 0 := by
  cases n with
  | zero => exact iff_of_true rfl rfl
  | succ n =>
    refine iff_of_false ?_ (Nat.succ_ne_zero n)
    intro same
    exact apart (List.cons.inj same).1

/-- The first `n` places are the same exactly if no dotted I stands among them before a letter. -/
theorem take_full (place : Place) (text : Text) (n : Nat) :
    (joined isSlugChar '-' place (full text)).take n = (joined isSlugChar '-' place (lowered text)).take n ↔
      Late place text n := by
  induction text generalizing place n with
  | nil =>
    refine iff_of_true rfl fun before c rest split => ?_
    exact absurd split.symm (List.append_ne_nil_of_right_ne_nil _ (List.cons_ne_nil _ _))
  | cons c text ih =>
    by_cases dotted : c.toNat = 0x130
    · obtain rfl := dotted_eq dotted
      rw [joined_dotted_full, joined_dotted, take_append_iff]
      cases text with
      | nil =>
        refine iff_of_true rfl fun before c rest split => ?_
        have length := congrArg List.length split
        rw [List.length_append, List.length_cons, List.length_cons, List.length_cons, List.length_nil] at length
        omega
      | cons d text =>
        cases letter : isSlugChar (toLower d) with
        | false => rw [late_dotted letter, ← ih, joined_gap letter]
        | true =>
          obtain ⟨more, starts⟩ := full_head d text
          rw [late_letter letter, starts, joined_letter letter]
          change _ = (joined isSlugChar '-' .word (toLower d :: lowered text)).take _ ↔ _
          rw [joined_letter letter]
          exact (take_apart (slugChar_ne letter).symm).trans Nat.sub_eq_zero_iff_le
    · rw [full_other dotted, late_cons dotted, ← ih]
      change (joined isSlugChar '-' place (toLower c :: full text)).take n =
        (joined isSlugChar '-' place (toLower c :: lowered text)).take n ↔ _
      rw [joined_first, joined_first place _ (lowered text), take_append_iff]

theorem joined_word_length (text : Text) :
    (joined isSlugChar '-' .word text).length ≤ (joined isSlugChar '-' .gap text).length := by
  cases text with
  | nil => exact Nat.le_refl _
  | cons c text =>
    cases letter : isSlugChar c with
    | true =>
      rw [joined_letter letter, joined_letter letter, List.length_append, List.length_append]
      exact Nat.add_le_add_right (Nat.zero_le _) _
    | false =>
      rw [joined_other letter, joined_other letter]
      exact Nat.le_refl _

theorem full_longer (place : Place) (text : Text) :
    (joined isSlugChar '-' place (lowered text)).length ≤ (joined isSlugChar '-' place (full text)).length := by
  induction text generalizing place with
  | nil => exact Nat.le_refl _
  | cons c text ih =>
    by_cases dotted : c.toNat = 0x130
    · obtain rfl := dotted_eq dotted
      rw [joined_dotted_full, joined_dotted, List.length_append, List.length_append]
      exact Nat.add_le_add_left (Nat.le_trans (joined_word_length _) (ih .gap)) _
    · rw [full_other dotted]
      change (joined isSlugChar '-' place (toLower c :: lowered text)).length ≤ _
      rw [joined_first, joined_first place _ (full text), List.length_append, List.length_append]
      exact Nat.add_le_add_left (ih _) _

theorem full_clean (text : Text) : Clean isSlugChar '-' (joined isSlugChar '-' .start (full text)) := by
  have clean := replaced_clean isSlugChar Nat.one_pos (Nat.le_succ 1)
    (fun c plain => nonSlug_others plain) (full text)
  rwa [replaced_joined isSlugChar Nat.one_pos (Nat.le_succ 1) hyphen_mark (fun c => nonSlug_apart)
    (fun c => nonSlug_others)] at clean

/-- Clean texts are ASCII. -/
theorem clean_units {text : Text} (clean : ∀ c ∈ text, isSlugChar c = true ∨ c = '-') :
    text.map Units.unit = Units.ofText text := by
  induction text with
  | nil => rfl
  | cons c text ih =>
    obtain ⟨here, later⟩ := List.forall_mem_cons.mp clean
    have small : c.toNat < 0x10000 := by
      rcases here with letter | rfl
      · have ascii := slugChar_iff.mp letter
        omega
      · decide
    rw [Units.ofText_cons, Units.ofChar, if_pos small, List.map_cons, ih later]
    rfl

theorem dashboard_eq (endsWord : Units → Units → Bool) (text : Text) :
    Dashboard.slugify endsWord (Units.ofText text) =
      Units.ofText ((joined isSlugChar '-' .start (full text)).take 63) := by
  have apart (unit : UInt16) (other : Dashboard.nonSlugUnit unit = true) : Dashboard.isSlugUnit unit = false := by
    unfold Dashboard.nonSlugUnit at other
    rw [Bool.not_eq_true', Bool.or_eq_false_iff] at other
    exact other.1
  have others (unit : UInt16) (plain : Dashboard.nonSlugUnit unit = false) :
      Dashboard.isSlugUnit unit = true ∨ unit = 0x2D := by
    unfold Dashboard.nonSlugUnit at plain
    rwa [Bool.not_eq_false', Bool.or_eq_true, decide_eq_true_eq] at plain
  change (replaced Dashboard.nonSlugUnit 0x2D 2 (Units.toLowerCase endsWord (Units.ofText text))).take 63 = _
  rw [replaced_joined Dashboard.isSlugUnit Nat.two_pos (Nat.le_refl 2) rfl apart others, Units.toLowerCase,
    joined_full, ← List.map_take, clean_units]
  exact fun c mem => (full_clean text).chars c (List.mem_of_mem_take mem)

/-- The cut falls on no hyphen, and no dotted capital I stands before a letter in what is kept. -/
def Plain (text : Text) : Prop :=
  (hyphenated text)[62]? ≠ some '-' ∧
    ∀ before c after, text = before ++ 'İ' :: c :: after → isSlugChar (toLower c) = true →
      63 ≤ (hyphenated (before ++ ['İ'])).length

theorem cut_plain (text : Text) :
    (joined isSlugChar '-' .start (full text)).take 63 = slugify text ↔ Plain text := by
  have clean := hyphenated_clean text
  rw [slugify_eq]
  constructor
  · intro same
    have front : (joined isSlugChar '-' .start (full text)).take 63 <+: (hyphenated text).take 63 := by
      rw [same]
      exact List.rdropWhile_prefix _ _
    have length : ((hyphenated text).take 63).length ≤ ((joined isSlugChar '-' .start (full text)).take 63).length := by
      have longer : (hyphenated text).length ≤ (joined isSlugChar '-' .start (full text)).length := full_longer .start text
      rw [List.length_take, List.length_take]
      omega
    have whole := front.eq_of_length_le length
    refine ⟨?_, (take_full .start text 63).mp whole⟩
    intro hyphen
    have last : ((hyphenated text).take 63).getLast? = some '-' := by
      rw [List.getLast?_take, if_neg (by decide), hyphen]
      rfl
    rw [← whole, same] at last
    exact last_rdropWhile last rfl
  · intro plain
    rw [(take_full .start text 63).mpr plain.2, eq_comm, List.rdropWhile_eq_self_iff]
    intro some is
    have last := List.getLast?_eq_some_getLast some
    rw [of_decide_eq_true is, List.getLast?_take, if_neg (by decide)] at last
    cases place : (hyphenated text)[62]? with
    | some c =>
      rw [place] at last
      exact plain.1 (place.trans last)
    | none =>
      rw [place] at last
      exact clean.last '-' last rfl

/-- Slugify makes valid slugs and leaves them alone, and the dashboard proposes the
same slug exactly for plain names. -/
theorem slugs_agree (endsWord : Units → Units → Bool) (text : Text) :
    (slugify text = [] ∨ validSlug (slugify text) = true) ∧ slugify (slugify text) = slugify text ∧
      (validSlug text = true → slugify text = text) ∧
      (Dashboard.slugify endsWord (Units.ofText text) = Units.ofText (slugify text) ↔ Plain text) := by
  refine ⟨slugify_valid text, slugify_slugify text, slugify_of_valid, ?_⟩
  rw [dashboard_eq, ← cut_plain]
  constructor
  · intro same
    have texts := congrArg Units.toText same
    rwa [Units.toText_ofText, Units.toText_ofText] at texts
  · intro same
    rw [same]

/-- The cut falls on the hyphen. -/
theorem hyphen_proposed :
    let name := List.replicate 62 'a' ++ "-b".toList
    let proposed := Dashboard.slugify (fun _ _ => false) (Units.ofText name)
    proposed ≠ Units.ofText (slugify name) ∧ validSlug (Units.toText proposed) = false := by
  decide +kernel

end Dropway.Api
