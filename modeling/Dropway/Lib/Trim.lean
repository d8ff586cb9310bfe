import Dropway.Lib.Utf8
import Mathlib.Data.List.TakeWhile

/-! Trimming the white space of Unicode from both ends of a text. -/

namespace Dropway.Lib.Text

/-- The White_Space property. -/
def isWhite (c : Char) : Bool :=
  (0x09 ≤ c.toNat && c.toNat ≤ 0x0D) || (0x2000 ≤ c.toNat && c.toNat ≤ 0x200A) ||
    [0x20, 0x85, 0xA0, 0x1680, 0x2028, 0x2029, 0x202F, 0x205F, 0x3000].contains c.toNat

def trimSpace (text : Text) : Text :=
  ((text.dropWhile isWhite).reverse.dropWhile isWhite).reverse

variable {p : Char → Bool}

/-- What begins with a character that stays is left whole. -/
theorem dropWhile_append_stays {mark : Char} (stays : p mark = false) (front rest : Text) :
    ∃ left, (front ++ mark :: rest).dropWhile p = left ++ mark :: rest := by
  induction front with
  | nil => exact ⟨[], List.dropWhile_cons_of_neg (by rw [stays]; exact Bool.false_ne_true)⟩
  | cons c front ih =>
    by_cases drops : p c = true
    · obtain ⟨left, dropped⟩ := ih
      exact ⟨left, (List.dropWhile_cons_of_pos drops).trans dropped⟩
    · exact ⟨c :: front, List.dropWhile_cons_of_neg drops⟩

theorem trimSpace_append_white (text : Text) {back : Text} (white : ∀ c ∈ back, isWhite c = true) :
    trimSpace (text ++ back) = trimSpace text := by
  have reversed (rest : Text) : (back.reverse ++ rest).dropWhile isWhite = rest.dropWhile isWhite :=
    List.dropWhile_append_of_pos fun c mem => white c (List.mem_reverse.mp mem)
  have gone : back.dropWhile isWhite = [] := List.dropWhile_eq_nil_iff.mpr white
  unfold trimSpace
  rw [List.dropWhile_append]
  split
  · rename_i blank
    rw [gone, List.isEmpty_iff.mp blank]
  · rw [List.reverse_append, reversed]

theorem trimSpace_infix (text : Text) : trimSpace text <:+: text := by
  have left : text.dropWhile isWhite <:+ text := List.dropWhile_suffix isWhite
  have right : (text.dropWhile isWhite).reverse.dropWhile isWhite <:+ (text.dropWhile isWhite).reverse :=
    List.dropWhile_suffix isWhite
  have inner := List.reverse_prefix.mpr right
  rw [List.reverse_reverse] at inner
  exact inner.isInfix.trans left.isInfix

/-- What stands between two characters that stay, stays. -/
theorem infix_trimSpace {first last : Char} (visible : isWhite first = false) (seen : isWhite last = false)
    (front middle : Text) :
    first :: middle ++ [last] <:+: trimSpace (front ++ (first :: middle ++ [last])) := by
  obtain ⟨left, dropped⟩ := dropWhile_append_stays visible front (middle ++ [last])
  refine ⟨left, [], ?_⟩
  unfold trimSpace
  rw [List.cons_append, dropped, ← List.cons_append, ← List.append_assoc, List.reverse_append, List.reverse_singleton,
    List.singleton_append, List.dropWhile_cons_of_neg (by rw [seen]; exact Bool.false_ne_true), List.reverse_cons,
    List.reverse_reverse, List.append_nil]

private theorem mem_dropWhile_white {c : Char} (visible : isWhite c = false) {text : Text} (mem : c ∈ text) :
    c ∈ text.dropWhile isWhite := by
  rw [← List.takeWhile_append_dropWhile (p := isWhite) (l := text)] at mem
  rcases List.mem_append.mp mem with early | late
  · rw [List.mem_takeWhile_imp early] at visible
    cases visible
  · exact late

theorem mem_trimSpace {c : Char} (visible : isWhite c = false) {text : Text} (mem : c ∈ text) :
    c ∈ trimSpace text := by
  have front := mem_dropWhile_white visible mem
  exact List.mem_reverse.mpr (mem_dropWhile_white visible (List.mem_reverse.mpr front))

theorem trimSpace_eq_nil {text : Text} : trimSpace text = [] ↔ ∀ c ∈ text, isWhite c = true := by
  constructor
  · intro none c mem
    by_contra visible
    have left := mem_trimSpace (Bool.eq_false_iff.mpr visible) mem
    rw [none] at left
    cases left
  · intro white
    rw [trimSpace, List.dropWhile_eq_nil_iff.mpr white]
    rfl

/-- No white space at either end. -/
structure Trimmed (text : Text) : Prop where
  first : ∀ c ∈ text.head?, isWhite c = false
  last : ∀ c ∈ text.getLast?, isWhite c = false

private theorem first_dropWhile (text : Text) : ∀ c ∈ (text.dropWhile isWhite).head?, isWhite c = false := by
  intro c first
  have stays := List.head?_dropWhile_not isWhite text
  rw [Option.mem_def.mp first] at stays
  exact Bool.eq_false_iff.mpr (by simpa using stays)

theorem trimSpace_trimmed (text : Text) : Trimmed (trimSpace text) := by
  unfold trimSpace
  constructor
  · intro c first
    have front : ((text.dropWhile isWhite).reverse.dropWhile isWhite).reverse <+: text.dropWhile isWhite := by
      have back : (text.dropWhile isWhite).reverse.dropWhile isWhite <:+ (text.dropWhile isWhite).reverse :=
        List.dropWhile_suffix isWhite
      simpa only [List.reverse_reverse] using List.reverse_prefix.mpr back
    obtain ⟨rest, whole⟩ := front
    apply first_dropWhile text c
    rw [← whole, List.head?_append, Option.mem_def.mp first]
    rfl
  · intro c last
    rw [List.getLast?_reverse] at last
    exact first_dropWhile _ c last

private theorem dropWhile_of_first {text : Text} (first : ∀ c ∈ text.head?, isWhite c = false) :
    text.dropWhile isWhite = text := by
  cases text with
  | nil => rfl
  | cons c rest => exact List.dropWhile_cons_of_neg (by rw [first c rfl]; exact Bool.false_ne_true)

theorem Trimmed.trimSpace {text : Text} (trimmed : Trimmed text) : trimSpace text = text := by
  have back : text.reverse.dropWhile isWhite = text.reverse := by
    apply dropWhile_of_first
    rw [List.head?_reverse]
    exact trimmed.last
  rw [Text.trimSpace, dropWhile_of_first trimmed.first, back, List.reverse_reverse]

/-- Whatever stands between two trimmed texts. -/
theorem Trimmed.append {front back : Text} (trimmed : Trimmed front) (behind : Trimmed back) (middle : Text)
    (some : front ≠ []) (more : back ≠ []) : Trimmed (front ++ middle ++ back) := by
  constructor
  · intro c first
    rw [List.append_assoc, List.head?_append_of_ne_nil _ some] at first
    exact trimmed.first c first
  · intro c last
    rw [List.getLast?_append_of_ne_nil _ more] at last
    exact behind.last c last

private theorem filter_dropWhile (text : Text) :
    (text.dropWhile isWhite).filter (fun c => !isWhite c) = text.filter fun c => !isWhite c := by
  induction text with
  | nil => rfl
  | cons c rest ih =>
    by_cases white : isWhite c = true
    · rw [List.dropWhile_cons_of_pos white, ih, List.filter_cons_of_neg (by rw [white]; exact Bool.false_ne_true)]
    · rw [List.dropWhile_cons_of_neg white]

/-- Trimming takes nothing that can be seen. -/
theorem filter_trimSpace (text : Text) :
    (trimSpace text).filter (fun c => !isWhite c) = text.filter fun c => !isWhite c := by
  rw [trimSpace, List.filter_reverse, filter_dropWhile, List.filter_reverse, List.reverse_reverse, filter_dropWhile]

end Dropway.Lib.Text
