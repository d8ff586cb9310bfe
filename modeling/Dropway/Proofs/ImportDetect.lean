import Dropway.Proofs.ImportValid
import Dropway.Lib.Uri

/-! Where the detection of the format takes an export for the JSONL that it is. -/

namespace Dropway.Chatspec
open Lib

/-- One JSON object or array, taken for a ChatGPT export. -/
def SingleDocument (raw : Text) : Prop :=
  let trimmed := Text.trimSpace raw
  (trimmed.head? = some '{' ∨ trimmed.head? = some '[') ∧ (JsonText.parse trimmed).isSome = true

instance (raw : Text) : Decidable (SingleDocument raw) :=
  inferInstanceAs (Decidable ((_ ∨ _) ∧ _))

/-- Every line that is not blank is a JSON value. -/
def JsonLines (raw : Text) : Prop :=
  ∀ line ∈ nonBlankLines (Text.trimSpace raw), (JsonText.parse line).isSome = true

variable {iteration : Iteration} {raw format auto : Text} {deriveActions : Bool}
  {result : List Message × Nat}

/-- A text that is not blank has a line that is not. -/
private theorem nonBlankLines_ne_nil {text : Text} (visible : blank text = false) : nonBlankLines text ≠ [] := by
  obtain ⟨c, mem, seen⟩ := not_blank_iff.mp visible
  have apart : c ≠ '\n' := by
    rintro rfl
    exact absurd seen (by decide)
  obtain ⟨line, inside, held⟩ := (Uri.mem_splitOn apart text).mpr mem
  have kept : blank line = false := not_blank_iff.mpr ⟨c, held, seen⟩
  refine List.ne_nil_of_mem (List.mem_map.mpr ⟨line, List.mem_filter.mpr ⟨inside, ?_⟩, rfl⟩)
  rw [kept]
  rfl

/-- A blank text has no lines, and so no messages. -/
private theorem visible_of_messages {m : Message} (mem : m ∈ normalizeJSONL raw deriveActions) :
    blank raw = false := by
  obtain ⟨line, inside, -⟩ := List.mem_flatMap.mp mem
  obtain ⟨whole, kept, -⟩ := List.mem_map.mp inside
  obtain ⟨listed, visible⟩ := List.mem_filter.mp kept
  rw [Bool.not_eq_true'] at visible
  obtain ⟨c, held, seen⟩ := not_blank_iff.mp visible
  have apart : c ≠ '\n' := by
    rintro rfl
    exact absurd seen (by decide)
  exact not_blank_iff.mpr ⟨c, (Uri.mem_splitOn apart raw).mp ⟨whole, listed, held⟩, seen⟩

theorem detected (visible : blank raw = false) (lines : JsonLines raw) (several : ¬ SingleDocument raw) :
    detectFormat raw = "claude_code".toList := by
  have some := nonBlankLines_ne_nil (trimSpace_visible visible)
  unfold detectFormat
  refine Eq.trans (if_neg several) (if_pos ⟨some, List.all_eq_true.mpr lines⟩)

private theorem normalize_congr
    (same : readFormat iteration raw (resolveFormat raw format) deriveActions =
      readFormat iteration raw (resolveFormat raw auto) deriveActions) :
    normalize iteration raw format deriveActions = normalize iteration raw auto deriveActions := by
  rw [normalize, normalize, same]

private theorem explicit_read (explicit : format = "claude_code".toList ∨ format = "jsonl".toList) :
    readFormat iteration raw (resolveFormat raw format) deriveActions =
      .ok (normalizeJSONL raw deriveActions) := by
  have kept : ¬ (format = [] ∨ format = "auto".toList) := by
    rcases explicit with rfl | rfl <;> decide
  rw [resolveFormat, if_neg kept]
  exact if_pos explicit

private theorem visible_of_imported (explicit : format = "claude_code".toList ∨ format = "jsonl".toList)
    (imported : normalize iteration raw format deriveActions = .ok result) : blank raw = false := by
  cases made : normalizeJSONL raw deriveActions with
  | cons m rest =>
    have mem : m ∈ normalizeJSONL raw deriveActions := by
      rw [made]
      exact List.mem_cons_self ..
    exact visible_of_messages mem
  | nil =>
    rw [normalize, explicit_read explicit, made] at imported
    split at imported <;> cases imported

/-- JSON lines that are no single document are detected as what they are. -/
theorem detection_agrees (explicit : format = "claude_code".toList ∨ format = "jsonl".toList)
    (detecting : auto = [] ∨ auto = "auto".toList)
    (imported : normalize iteration raw format deriveActions = .ok result)
    (lines : JsonLines raw) (several : ¬ SingleDocument raw) :
    normalize iteration raw auto deriveActions = .ok result := by
  have found := detected (visible_of_imported explicit imported) lines several
  have resolved : resolveFormat raw auto = "claude_code".toList := by
    rw [resolveFormat, if_pos detecting, found]
  have read : readFormat iteration raw (resolveFormat raw auto) deriveActions =
      .ok (normalizeJSONL raw deriveActions) := by
    rw [resolved]
    exact if_pos (Or.inl rfl)
  rw [← imported]
  exact normalize_congr (read.trans (explicit_read explicit).symm)

def sayLine (said : Text) : Text :=
  "\x7b\"role\":\"user\",\"content\":\"".toList ++ said ++ "\"\x7d".toList

def twoLines : Text := sayLine "one".toList ++ '\n' :: sayLine "two".toList

theorem two_lines_agree : normalize forwards twoLines "auto".toList false =
    .ok ([chat roleUser "one".toList, chat roleUser "two".toList], 0) :=
  detection_agrees (Or.inl rfl) (Or.inr rfl) (by decide +kernel)
    (List.all_eq_true.mp (by decide +kernel)) (by decide +kernel)

/-- A line by itself is taken for a ChatGPT export without messages; one that is no JSON makes
all of them plain text. -/
theorem detection_differs :
    ¬ (∀ (iteration : Iteration) (raw : Text) (deriveActions : Bool) (result : List Message × Nat),
        JsonLines raw → normalize iteration raw "claude_code".toList deriveActions = .ok result →
          normalize iteration raw "auto".toList deriveActions = .ok result) ∧
      ¬ (∀ (iteration : Iteration) (raw : Text) (deriveActions : Bool) (result : List Message × Nat),
        ¬ SingleDocument raw → normalize iteration raw "claude_code".toList deriveActions = .ok result →
          normalize iteration raw "auto".toList deriveActions = .ok result) := by
  refine ⟨fun agrees => ?_, fun agrees => ?_⟩
  · have ran := agrees forwards (sayLine "one".toList) false ([chat roleUser "one".toList], 0)
      (List.all_eq_true.mp (by decide +kernel)) (by decide +kernel)
    exact absurd ran (by decide +kernel)
  · have ran := agrees forwards (sayLine "one".toList ++ "\nnot json".toList) false
      ([chat roleUser "one".toList], 0) (by decide +kernel) (by decide +kernel)
    exact absurd ran (by decide +kernel)

end Dropway.Chatspec
