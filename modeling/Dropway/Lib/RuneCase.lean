import Dropway.Lib.LowerCase

/-! Lower case rune by rune, as Go's unicode.ToLower has it: every rune has exactly
one lower case, also the dotted capital I. -/

namespace Dropway.Lib.RuneCase
open Lib.Units

def toLower (c : Char) : Char := if c.toNat = 0x130 then 'i' else Char.ofNat (lowerPoint c.toNat)

/-- `strings.ToLower` of a valid string. -/
def lowered (text : Text) : Text := text.map toLower

/-- The lower cases of one row are no capitals of another. -/
def Clear (r q : CaseRange) : Prop :=
  r.last + r.shift < q.first ∨ (q.last : Int) < r.first + r.shift ∨
    q.step = 2 ∧ (r.step = 2 ∨ r.first = r.last) ∧ (r.first + r.shift - q.first) % 2 = 1

instance (r q : CaseRange) : Decidable (Clear r q) := by
  unfold Clear
  infer_instance

/-- A row's lower cases are runes, and none is the dotted capital I. -/
def Proper (r : CaseRange) : Prop :=
  (0 : Int) ≤ r.first + r.shift ∧ r.last + r.shift < 0x110000 ∧
    (r.last + r.shift < 0xD800 ∨ (0xDFFF : Int) < r.first + r.shift) ∧
    (r.last + r.shift < 0x130 ∨ (0x130 : Int) < r.first + r.shift)

instance (r : CaseRange) : Decidable (Proper r) := by
  unfold Proper
  infer_instance

private theorem rows_clear : ∀ r ∈ lowerRanges, ∀ q ∈ lowerRanges, Clear r q := by decide +kernel

private theorem rows_proper : ∀ r ∈ lowerRanges, Proper r := by decide +kernel

private theorem i_fixed : lowerPoint 0x69 = 0x69 := by decide +kernel

private theorem lowerPoint_char (c : Char) : (lowerPoint c.toNat).isValidChar := by
  rcases lowerPoint_cases c.toNat with same | ⟨r, mem, first, last, same⟩
  · rw [same]
    exact c.valid
  · obtain ⟨least, most, gap, -⟩ := rows_proper r mem
    rw [same]
    rcases gap with below | above
    · exact .inl (by omega)
    · exact .inr ⟨by omega, by omega⟩

theorem toLower_toNat (c : Char) :
    (toLower c).toNat = if c.toNat = 0x130 then 0x69 else lowerPoint c.toNat := by
  unfold toLower
  by_cases dotted : c.toNat = 0x130
  · rw [if_pos dotted, if_pos dotted]
    rfl
  · rw [if_neg dotted, if_neg dotted, Char.ofNat, dif_pos (lowerPoint_char c)]
    rfl

/-- The row of a point and the place in it. -/
private theorem lowerPoint_row (point : Nat) :
    lowerPoint point = point ∨
      ∃ r ∈ lowerRanges, r.first ≤ point ∧ point ≤ r.last ∧ (point - r.first) % r.step = 0 ∧
        lowerPoint point = (point + r.shift).toNat := by
  unfold lowerPoint
  cases found : lowerRanges.find? fun r => r.first ≤ point ∧ point ≤ r.last ∧ (point - r.first) % r.step = 0 with
  | none => exact .inl rfl
  | some r =>
    have inside : r.first ≤ point ∧ point ≤ r.last ∧ (point - r.first) % r.step = 0 := by
      simpa only [decide_eq_true_eq] using List.find?_some found
    exact .inr ⟨r, List.mem_of_find?_eq_some found, inside.1, inside.2.1, inside.2.2, rfl⟩

private theorem lowerPoint_twice (point : Nat) : lowerPoint (lowerPoint point) = lowerPoint point := by
  rcases lowerPoint_row point with same | ⟨r, mem, first, last, place, image⟩
  · rw [same, same]
  · rcases lowerPoint_row (lowerPoint point) with same | ⟨q, other, low, high, parity, -⟩
    · exact same
    · obtain ⟨least, -⟩ := rows_proper r mem
      exfalso
      rcases rows_clear r mem q other with below | above | ⟨even, alike, odd⟩
      · omega
      · omega
      · rw [even] at parity
        rcases alike with two | one
        · rw [two] at place
          omega
        · omega

/-- A lower case has no other. -/
theorem toLower_toLower (c : Char) : toLower (toLower c) = toLower c := by
  apply Char.toNat_inj.mp
  by_cases dotted : c.toNat = 0x130
  · have lower : (toLower c).toNat = 0x69 := by rw [toLower_toNat, if_pos dotted]
    rw [toLower_toNat (toLower c), lower, if_neg (by decide), i_fixed]
  · have lower : (toLower c).toNat = lowerPoint c.toNat := by rw [toLower_toNat, if_neg dotted]
    have plain : lowerPoint c.toNat ≠ 0x130 := by
      rcases lowerPoint_cases c.toNat with same | ⟨r, mem, first, last, same⟩
      · rw [same]
        exact dotted
      · obtain ⟨-, -, -, away⟩ := rows_proper r mem
        omega
    rw [toLower_toNat (toLower c), lower, if_neg plain, lowerPoint_twice]

theorem lowered_lowered (text : Text) : lowered (lowered text) = lowered text := by
  unfold lowered
  rw [List.map_map]
  exact List.map_congr_left fun c _ => toLower_toLower c

/-- What a lower-case text holds is lower-case. -/
theorem lowered_infix {part text : Text} (inside : part <:+: lowered text) : lowered part = part := by
  unfold lowered
  rw [List.map_congr_left, List.map_id]
  intro c mem
  obtain ⟨d, -, rfl⟩ := List.mem_map.mp (inside.subset mem)
  exact toLower_toLower d

private theorem lowerPoint_far {point : Nat} (large : 0x80 ≤ point) (other : point ≠ 0x212A) : 0x80 ≤ lowerPoint point := by
  rcases lowerPoint_cases point with same | ⟨r, mem, first, last, same⟩
  · omega
  · rcases (lowerRanges_apart r mem).1 with ascii | ⟨-, shifted | kelvin⟩
    · omega
    · omega
    · subst kelvin
      simp only at first last
      omega

private theorem small_lower : ∀ n < 0x80, toLower (Char.ofNat n) = (Char.ofNat n).toLower := by decide +kernel

private theorem toLower_eq_iff {c plain : Char} (undotted : c.toNat ≠ 0x130) (ascii : plain.toNat < 0x80) :
    toLower c = plain ↔ (if c.toNat = 0x212A then 'k' else c.toLower) = plain := by
  by_cases kelvin : c.toNat = 0x212A
  · have lower : toLower c = 'k' := by
      apply Char.toNat_inj.mp
      rw [toLower_toNat, if_neg undotted, kelvin]
      decide +kernel
    rw [lower, if_pos kelvin]
  rw [if_neg kelvin]
  by_cases small : c.toNat < 0x80
  · have same := small_lower c.toNat small
    rw [Char.ofNat_toNat] at same
    rw [same]
  · have far := lowerPoint_far (Nat.le_of_not_lt small) kelvin
    have itself : c.toLower = c := by
      refine dif_neg fun upper => small ?_
      have most : c.val ≤ 'Z'.val := upper.2
      exact Nat.lt_of_le_of_lt (show c.toNat ≤ 90 from most) (by decide)
    refine iff_of_false (fun same => ?_) (fun same => ?_)
    · rw [← same, toLower_toNat, if_neg undotted] at ascii
      omega
    · rw [← same, itself] at ascii
      exact small ascii

/-- A browser and Go agree on whose lower case an ASCII text is, but for the dotted capital I. -/
theorem lowered_eq_iff {text plain : Text} (undotted : ∀ c ∈ text, c.toNat ≠ 0x130) (ascii : ∀ c ∈ plain, c.toNat < 0x80) :
    lowered text = plain ↔ Text.lower text = plain := by
  induction text generalizing plain with
  | nil => exact Iff.rfl
  | cons c text ih =>
    obtain ⟨here, later⟩ := List.forall_mem_cons.mp undotted
    cases plain with
    | nil => exact iff_of_false (List.cons_ne_nil _ _) (List.cons_ne_nil _ _)
    | cons d plain =>
      obtain ⟨first, rest⟩ := List.forall_mem_cons.mp ascii
      have letters := toLower_eq_iff here first
      have others := ih later rest
      simp only [lowered, Text.lower, List.map_cons, List.cons.injEq] at others ⊢
      rw [letters, others]

end Dropway.Lib.RuneCase
