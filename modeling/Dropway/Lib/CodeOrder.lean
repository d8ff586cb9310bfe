import Dropway.Lib.Ascii
import Mathlib.Data.List.Sort

/-! Two orders of texts: that of their UTF-8 bytes, which is the order of code
points, and that of their UTF-16 code units, in which a surrogate pair stands
before the last characters of the basic plane. -/

namespace Dropway.Lib

section

variable {ν : Type} [LT ν] {code : Char → List ν} {before : Char → Char → Prop} {a b : Text}

/-- A character that stands before another has the lesser code, whatever follows. -/
structure Orders (code : Char → List ν) (before : Char → Char → Prop) : Prop where
  strict : ∀ {c d}, before c d → ∀ front back, code c ++ front < code d ++ back
  nonempty : ∀ c, code c ≠ []
  total : ∀ {c d}, c ≠ d → before c d ∨ before d c

theorem Orders.flatMap_lt (orders : Orders code before) (lex : List.Lex before a b) :
    a.flatMap code < b.flatMap code := by
  induction lex with
  | @nil c rest =>
    rw [List.flatMap_nil, List.flatMap_cons]
    obtain ⟨unit, more, same⟩ := List.exists_cons_of_ne_nil (orders.nonempty c)
    rw [same]
    exact List.nil_lt_cons unit _
  | cons _ ih =>
    rw [List.flatMap_cons, List.flatMap_cons]
    exact List.append_left_lt ih
  | rel first =>
    rw [List.flatMap_cons, List.flatMap_cons]
    exact orders.strict first _ _

theorem Orders.lex_total (orders : Orders code before) (differ : a ≠ b) :
    List.Lex before a b ∨ List.Lex before b a := by
  induction a generalizing b with
  | nil =>
    cases b with
    | nil => exact absurd rfl differ
    | cons d b => exact .inl .nil
  | cons c a ih =>
    cases b with
    | nil => exact .inr .nil
    | cons d b =>
      by_cases same : c = d
      · subst same
        exact (ih fun equal => differ (equal ▸ rfl)).imp .cons .cons
      · exact (orders.total same).imp .rel .rel

/-- Comparing codes is comparing characters. -/
theorem Orders.lt_iff (orders : Orders code before) (asymm : ∀ one two : List ν, one < two → ¬ two < one) :
    a.flatMap code < b.flatMap code ↔ List.Lex before a b := by
  refine ⟨fun less => ?_, orders.flatMap_lt⟩
  have differ : a ≠ b := by
    rintro rfl
    exact asymm _ _ less less
  rcases orders.lex_total differ with lex | lex
  · exact lex
  · exact absurd less (asymm _ _ (orders.flatMap_lt lex))

end

/-! ### UTF-8 -/

namespace Utf8

private theorem byte_cons_lt {m n : Nat} {front back : Bytes} (small : m < 256) (below : n < 256) :
    UInt8.ofNat m :: front < UInt8.ofNat n :: back ↔ m < n ∨ m = n ∧ front < back := by
  rw [List.cons_lt_cons_iff, UInt8.lt_iff_toNat_lt, ← UInt8.toNat_inj, UInt8.toNat_ofNat', UInt8.toNat_ofNat',
    Nat.mod_eq_of_lt small, Nat.mod_eq_of_lt below]

/-- The bytes of a character, by how many there are. -/
private theorem encodeChar_cases (c : Char) : ∃ lead rest, String.utf8EncodeChar c = UInt8.ofNat lead :: rest ∧
    ((c.toNat < 0x80 ∧ lead = c.toNat ∧ rest = []) ∨
      (0x80 ≤ c.toNat ∧ c.toNat < 0x800 ∧ lead = 0xC0 + c.toNat / 64 ∧
        rest = [UInt8.ofNat (0x80 + c.toNat % 64)]) ∨
      (0x800 ≤ c.toNat ∧ c.toNat < 0x10000 ∧ lead = 0xE0 + c.toNat / 4096 ∧
        rest = [UInt8.ofNat (0x80 + c.toNat / 64 % 64), UInt8.ofNat (0x80 + c.toNat % 64)]) ∨
      (0x10000 ≤ c.toNat ∧ c.toNat < 0x110000 ∧ lead = 0xF0 + c.toNat / 262144 ∧
        rest = [UInt8.ofNat (0x80 + c.toNat / 4096 % 64), UInt8.ofNat (0x80 + c.toNat / 64 % 64),
          UInt8.ofNat (0x80 + c.toNat % 64)])) := by
  have valid : c.toNat < 0xD800 ∨ (0xDFFF < c.toNat ∧ c.toNat < 0x110000) := c.valid
  rw [String.utf8EncodeChar]
  simp only [show c.val.toNat = c.toNat from rfl]
  split
  · exact ⟨_, _, rfl, .inl ⟨by omega, rfl, rfl⟩⟩
  split
  · have lead : c.toNat / 64 % 32 + 192 = 0xC0 + c.toNat / 64 := by omega
    rw [lead, Nat.add_comm _ 128]
    exact ⟨_, _, rfl, .inr (.inl ⟨by omega, by omega, rfl, rfl⟩)⟩
  split
  · have lead : c.toNat / 4096 % 16 + 224 = 0xE0 + c.toNat / 4096 := by omega
    rw [lead, Nat.add_comm _ 128, Nat.add_comm _ 128]
    exact ⟨_, _, rfl, .inr (.inr (.inl ⟨by omega, by omega, rfl, rfl⟩))⟩
  · have lead : c.toNat / 262144 % 8 + 240 = 0xF0 + c.toNat / 262144 := by omega
    rw [lead, Nat.add_comm _ 128, Nat.add_comm _ 128, Nat.add_comm _ 128]
    exact ⟨_, _, rfl, .inr (.inr (.inr ⟨by omega, by omega, rfl, rfl⟩))⟩

theorem orders : Orders String.utf8EncodeChar (· < ·) where
  nonempty := encodeChar_ne_nil
  total {c d} differ := by
    have apart : c.toNat ≠ d.toNat := fun same => differ (Char.toNat_inj.mp same)
    rcases Nat.lt_or_gt_of_ne apart with less | more
    · exact .inl less
    · exact .inr more
  strict {c d} less front back := by
    have order : c.toNat < d.toNat := less
    obtain ⟨lead, rest, bytes, shape⟩ := encodeChar_cases c
    obtain ⟨lead', rest', bytes', shape'⟩ := encodeChar_cases d
    rw [bytes, bytes', List.cons_append, List.cons_append, byte_cons_lt (by omega) (by omega)]
    by_cases first : lead < lead'
    · exact .inl first
    refine .inr ⟨by omega, ?_⟩
    rcases shape with ⟨_, _, rfl⟩ | ⟨_, _, _, rfl⟩ | ⟨_, _, _, rfl⟩ | ⟨_, _, _, rfl⟩ <;>
      rcases shape' with ⟨_, _, rfl⟩ | ⟨_, _, _, rfl⟩ | ⟨_, _, _, rfl⟩ | ⟨_, _, _, rfl⟩ <;> try omega
    · rw [List.cons_append, List.cons_append, byte_cons_lt (by omega) (by omega)]
      exact .inl (by omega)
    · simp only [List.cons_append, List.nil_append]
      rw [byte_cons_lt (by omega) (by omega), byte_cons_lt (by omega) (by omega)]
      by_cases second : c.toNat / 64 % 64 < d.toNat / 64 % 64
      · exact .inl (by omega)
      · exact .inr ⟨by omega, .inl (by omega)⟩
    · simp only [List.cons_append, List.nil_append]
      rw [byte_cons_lt (by omega) (by omega), byte_cons_lt (by omega) (by omega), byte_cons_lt (by omega) (by omega)]
      by_cases second : c.toNat / 4096 % 64 < d.toNat / 4096 % 64
      · exact .inl (by omega)
      refine .inr ⟨by omega, ?_⟩
      by_cases third : c.toNat / 64 % 64 < d.toNat / 64 % 64
      · exact .inl (by omega)
      · exact .inr ⟨by omega, .inl (by omega)⟩

end Utf8

/-! ### UTF-16 -/

/-- The code units of a character. -/
def Text.units (c : Char) : List Nat :=
  if c.toNat < 0x10000 then [c.toNat]
  else [0xD800 + (c.toNat - 0x10000) / 0x400, 0xDC00 + (c.toNat - 0x10000) % 0x400]

/-- A character that has a pair stands before what is left of the basic plane. -/
def Text.past (c d : Char) : Prop := 0xE000 ≤ c.toNat ∧ c.toNat < 0x10000 ∧ 0x10000 ≤ d.toNat

instance (c d : Char) : Decidable (Text.past c d) := inferInstanceAs (Decidable (_ ∧ _ ∧ _))

/-- The order of code units. -/
def Text.unitBefore (c d : Char) : Prop := Text.past d c ∨ (c < d ∧ ¬ Text.past c d)

theorem Text.orders : Orders Text.units Text.unitBefore where
  nonempty c := by
    unfold Text.units
    split <;> exact List.cons_ne_nil _ _
  total {c d} differ := by
    have apart : c.toNat ≠ d.toNat := fun same => differ (Char.toNat_inj.mp same)
    unfold Text.unitBefore Text.past
    simp only [show (c < d) = (c.toNat < d.toNat) from rfl, show (d < c) = (d.toNat < c.toNat) from rfl]
    omega
  strict {c d} less front back := by
    have valid : c.toNat < 0xD800 ∨ (0xDFFF < c.toNat ∧ c.toNat < 0x110000) := c.valid
    have valid' : d.toNat < 0xD800 ∨ (0xDFFF < d.toNat ∧ d.toNat < 0x110000) := d.valid
    unfold Text.unitBefore Text.past at less
    simp only [show (c < d) = (c.toNat < d.toNat) from rfl] at less
    unfold Text.units
    split <;> split <;> simp only [List.cons_append, List.nil_append, List.cons_lt_cons_iff]
    · exact .inl (by omega)
    · exact .inl (by omega)
    · exact .inl (by omega)
    · by_cases high : (c.toNat - 0x10000) / 0x400 < (d.toNat - 0x10000) / 0x400
      · exact .inl (by omega)
      · exact .inr ⟨by omega, .inl (by omega)⟩

/-- The texts first differ in a character past the surrogates, where the second has a pair. -/
def Text.straddles : Text → Text → Bool
  | c :: a, d :: b => if c = d then straddles a b else decide (past c d)
  | _, _ => false

theorem Text.lt_of_straddles {a b : Text} (straddle : a.straddles b = true) : a < b := by
  induction a generalizing b with
  | nil => cases straddle
  | cons c a ih =>
    cases b with
    | nil => cases straddle
    | cons d b =>
      unfold Text.straddles at straddle
      rw [List.cons_lt_cons_iff]
      split at straddle
      · exact .inr ⟨‹_›, ih straddle⟩
      · obtain ⟨_, small, large⟩ := of_decide_eq_true straddle
        exact .inl (show c.toNat < d.toNat by omega)

private theorem lex_unitBefore {a b : Text} :
    List.Lex Text.unitBefore a b ↔ b.straddles a = true ∨ (a < b ∧ a.straddles b = false) := by
  induction a generalizing b with
  | nil =>
    cases b with
    | nil => exact iff_of_false (fun lex => (by cases lex)) (by simp [Text.straddles])
    | cons d b => exact iff_of_true .nil (.inr ⟨List.nil_lt_cons d b, rfl⟩)
  | cons c a ih =>
    cases b with
    | nil => exact iff_of_false (fun lex => (by cases lex)) (by simp [Text.straddles])
    | cons d b =>
      by_cases same : c = d
      · subst same
        have irrefl : ¬ Text.unitBefore c c := by
          unfold Text.unitBefore Text.past
          simp only [show (c < c) = (c.toNat < c.toNat) from rfl]
          omega
        have rest : List.Lex Text.unitBefore (c :: a) (c :: b) ↔ List.Lex Text.unitBefore a b := by
          refine ⟨fun lex => ?_, .cons⟩
          cases lex with
          | rel first => exact absurd first irrefl
          | cons later => exact later
        rw [rest, ih]
        simp [Text.straddles]
      · have first : List.Lex Text.unitBefore (c :: a) (d :: b) ↔ Text.unitBefore c d := by
          refine ⟨fun lex => ?_, .rel⟩
          cases lex with
          | rel first => exact first
          | cons _ => exact absurd rfl same
        rw [first, Text.unitBefore]
        simp [Text.straddles, same, Ne.symm same, List.cons_lt_cons_iff]

/-- Where the two orders differ. -/
theorem Text.utf16_lt_iff {a b : Text} :
    a.utf16 < b.utf16 ↔ b.straddles a = true ∨ (a < b ∧ a.straddles b = false) :=
  (Text.orders.lt_iff fun _ _ => List.lt_asymm).trans lex_unitBefore

theorem Utf8.encode_lt_iff {a b : Text} : encode a < encode b ↔ a < b :=
  Utf8.orders.lt_iff fun _ _ => List.lt_asymm

end Dropway.Lib
