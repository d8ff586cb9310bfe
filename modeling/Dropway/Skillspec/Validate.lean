import Dropway.Chatspec.Message
import Dropway.Lib.Outcome
import Mathlib.Algebra.Order.BigOperators.Group.List

/-! What makes an uploaded directory a skill (internal/skillspec). -/

namespace Dropway.Skillspec
open Lib Lib.Outcome

def skillMD : Text := "SKILL.md".toList

def maxTotalBytes : Nat := 5 * 2 ^ 20

def maxFiles : Nat := 200

structure FileInfo where
  path : Text
  size : Int
  deriving DecidableEq

inductive Invalid where
  | emptyManifest
  | tooManyFiles (number : Nat)
  | invalidPath (path : Text)
  | duplicatePath (path : Text)
  | negativeSize (path : Text)
  | missingSkillMD
  | totalTooLarge (total : Int)
  deriving DecidableEq

/-- The rule is that of the paths in a chat message, word for word. -/
def cleanPath (path : Text) : Bool := Chatspec.cleanPath path

/-- What the loop of Validate has found. -/
structure Tally where
  total : Int
  seen : List Text
  hasSkillMD : Bool

/-- Addition of int64, which wraps around. -/
def addInt64 (a b : Int) : Int := (a + b).bmod (2 ^ 64)

def Tally.add (tally : Tally) (file : FileInfo) : Except Invalid Tally := do
  require (cleanPath file.path = true) (.invalidPath file.path)
  require (file.path ∉ tally.seen) (.duplicatePath file.path)
  require (0 ≤ file.size) (.negativeSize file.path)
  return ⟨addInt64 tally.total file.size, file.path :: tally.seen, tally.hasSkillMD || decide (file.path = skillMD)⟩

def validate (files : List FileInfo) : Except Invalid Unit := do
  require (files ≠ []) .emptyManifest
  require (files.length ≤ maxFiles) (.tooManyFiles files.length)
  let tally ← files.foldlM Tally.add ⟨0, [], false⟩
  require (tally.hasSkillMD = true) .missingSkillMD
  require (tally.total ≤ maxTotalBytes) (.totalTooLarge tally.total)

/-- The sum of the sizes, as numbers. -/
def total (files : List FileInfo) : Int := (files.map FileInfo.size).sum

/-- The rules of a manifest, the bound on its size apart. -/
structure Shaped (files : List FileInfo) : Prop where
  few : files.length ≤ maxFiles
  clean : ∀ file ∈ files, cleanPath file.path = true
  nodup : (files.map FileInfo.path).Nodup
  sizes : ∀ file ∈ files, 0 ≤ file.size
  rooted : skillMD ∈ files.map FileInfo.path

/-- The files that the loop has gone through, on top of what it started with. -/
private structure Counted (tally : Tally) (files : List FileInfo) (later : Tally) : Prop where
  clean : ∀ file ∈ files, cleanPath file.path = true
  nodup : (files.map FileInfo.path).Nodup
  fresh : ∀ file ∈ files, file.path ∉ tally.seen
  sizes : ∀ file ∈ files, 0 ≤ file.size
  rooted : later.hasSkillMD = true ↔ tally.hasSkillMD = true ∨ skillMD ∈ files.map FileInfo.path
  total : later.total.bmod (2 ^ 64) = (tally.total + total files).bmod (2 ^ 64)

private theorem add_ok {tally later : Tally} {file : FileInfo} :
    tally.add file = .ok later ↔
      cleanPath file.path = true ∧ file.path ∉ tally.seen ∧ 0 ≤ file.size ∧
        ⟨addInt64 tally.total file.size, file.path :: tally.seen,
          tally.hasSkillMD || decide (file.path = skillMD)⟩ = later := by
  simp only [Tally.add, bind_ok, require_ok, pure_ok, exists_and_left, exists_const]

private theorem counted {tally later : Tally} {files : List FileInfo}
    (ran : files.foldlM Tally.add tally = .ok later) : Counted tally files later := by
  induction files generalizing tally with
  | nil =>
    cases pure_ok.mp ran
    exact ⟨fun _ mem => absurd mem List.not_mem_nil, List.nodup_nil,
      fun _ mem => absurd mem List.not_mem_nil, fun _ mem => absurd mem List.not_mem_nil,
      by simp, by simp [total]⟩
  | cons file rest ih =>
    rw [List.foldlM_cons] at ran
    obtain ⟨middle, added, rest_ran⟩ := bind_ok.mp ran
    obtain ⟨clean, fresh, positive, rfl⟩ := add_ok.mp added
    have more := ih rest_ran
    refine ⟨?_, ?_, ?_, ?_, ?_, ?_⟩
    · exact List.forall_mem_cons.mpr ⟨clean, more.clean⟩
    · refine List.nodup_cons.mpr ⟨fun mem => ?_, more.nodup⟩
      obtain ⟨other, inside, same⟩ := List.mem_map.mp mem
      exact more.fresh other inside (List.mem_cons.mpr (Or.inl same))
    · exact List.forall_mem_cons.mpr ⟨fresh, fun other inside old =>
        more.fresh other inside (List.mem_cons_of_mem _ old)⟩
    · exact List.forall_mem_cons.mpr ⟨positive, more.sizes⟩
    · rw [more.rooted, List.map_cons, List.mem_cons, Bool.or_eq_true, decide_eq_true_eq, or_assoc,
        eq_comm (a := skillMD)]
    · rw [more.total, addInt64, Int.bmod_add_bmod, total, total, List.map_cons, List.sum_cons, Int.add_assoc]

private theorem counts {tally : Tally} {files : List FileInfo} (clean : ∀ file ∈ files, cleanPath file.path = true)
    (nodup : (files.map FileInfo.path).Nodup) (fresh : ∀ file ∈ files, file.path ∉ tally.seen)
    (sizes : ∀ file ∈ files, 0 ≤ file.size) : ∃ later, files.foldlM Tally.add tally = .ok later := by
  induction files generalizing tally with
  | nil => exact ⟨tally, rfl⟩
  | cons file rest ih =>
    obtain ⟨cleanHere, cleanLater⟩ := List.forall_mem_cons.mp clean
    obtain ⟨freshHere, freshLater⟩ := List.forall_mem_cons.mp fresh
    obtain ⟨sizeHere, sizesLater⟩ := List.forall_mem_cons.mp sizes
    obtain ⟨alone, nodupLater⟩ := List.nodup_cons.mp nodup
    have added := add_ok.mpr ⟨cleanHere, freshHere, sizeHere, rfl⟩
    have unseen : ∀ other ∈ rest, other.path ∉ file.path :: tally.seen := by
      intro other mem seen
      rcases List.mem_cons.mp seen with same | old
      · exact alone (same ▸ List.mem_map_of_mem mem)
      · exact freshLater other mem old
    have rest_counts : ∃ later, rest.foldlM Tally.add ⟨addInt64 tally.total file.size, file.path :: tally.seen,
        tally.hasSkillMD || decide (file.path = skillMD)⟩ = .ok later :=
      ih cleanLater nodupLater unseen sizesLater
    obtain ⟨later, ran⟩ := rest_counts
    rw [List.foldlM_cons]
    exact ⟨later, bind_ok.mpr ⟨_, added, ran⟩⟩

/-- The loop keeps its total within an int64. -/
private theorem counted_wrapped {tally later : Tally} {files : List FileInfo}
    (ran : files.foldlM Tally.add tally = .ok later) (within : tally.total.bmod (2 ^ 64) = tally.total) :
    later.total.bmod (2 ^ 64) = later.total := by
  induction files generalizing tally with
  | nil =>
    cases pure_ok.mp ran
    exact within
  | cons file rest ih =>
    rw [List.foldlM_cons] at ran
    obtain ⟨middle, added, later_ran⟩ := bind_ok.mp ran
    obtain ⟨-, -, -, rfl⟩ := add_ok.mp added
    exact ih later_ran Int.bmod_bmod

/-- Validate tests the total as the int64 has it. -/
theorem validate_ok {files : List FileInfo} :
    validate files = .ok () ↔ Shaped files ∧ (total files).bmod (2 ^ 64) ≤ maxTotalBytes := by
  have sum {tally : Tally} (ran : files.foldlM Tally.add ⟨0, [], false⟩ = .ok tally) :
      tally.total = (total files).bmod (2 ^ 64) := by
    rw [← counted_wrapped ran rfl, (counted ran).total, Int.zero_add]
  constructor
  · intro valid
    obtain ⟨_, -, valid⟩ := bind_ok.mp valid
    obtain ⟨_, few, valid⟩ := bind_ok.mp valid
    obtain ⟨tally, ran, valid⟩ := bind_ok.mp valid
    obtain ⟨_, rooted, small⟩ := bind_ok.mp valid
    have found := counted ran
    refine ⟨⟨require_ok.mp few, found.clean, found.nodup, found.sizes, ?_⟩, ?_⟩
    · exact (found.rooted.mp (require_ok.mp rooted)).resolve_left Bool.false_ne_true
    · rw [← sum ran]
      exact require_ok.mp small
  · intro accepted
    obtain ⟨shaped, small⟩ := accepted
    have some_file : files ≠ [] := by
      intro none
      have rooted := shaped.rooted
      rw [none] at rooted
      cases rooted
    have runs : ∃ tally, files.foldlM Tally.add ⟨0, [], false⟩ = .ok tally :=
      counts shaped.clean shaped.nodup (fun _ _ => List.not_mem_nil) shaped.sizes
    obtain ⟨tally, ran⟩ := runs
    have rooted := (counted ran).rooted.mpr (Or.inr shaped.rooted)
    rw [← sum ran] at small
    exact bind_ok.mpr ⟨(), require_ok.mpr some_file, bind_ok.mpr ⟨(), require_ok.mpr shaped.few,
      bind_ok.mpr ⟨tally, ran, bind_ok.mpr ⟨(), require_ok.mpr rooted, require_ok.mpr small⟩⟩⟩⟩

/-- Files that are not too large one by one have a total that is an int64. -/
theorem Shaped.total_small {files : List FileInfo} (shaped : Shaped files)
    (small : ∀ file ∈ files, file.size ≤ 2 ^ 50) : total files ≤ 2 ^ 58 := by
  have each : ∀ size ∈ files.map FileInfo.size, size ≤ 2 ^ 50 := by
    intro size inside
    obtain ⟨file, mem, rfl⟩ := List.mem_map.mp inside
    exact small file mem
  have sum := List.sum_le_card_nsmul (files.map FileInfo.size) (2 ^ 50) each
  rw [List.length_map, nsmul_eq_mul] at sum
  have few : (files.length : Int) ≤ maxFiles := Int.ofNat_le.mpr shaped.few
  unfold maxFiles at few
  change total files ≤ _ at sum
  omega

theorem Shaped.size_le_total {files : List FileInfo} (shaped : Shaped files) {file : FileInfo}
    (mem : file ∈ files) : file.size ≤ total files := by
  have nonneg : ∀ size ∈ files.map FileInfo.size, 0 ≤ size := by
    intro size inside
    obtain ⟨other, otherMem, rfl⟩ := List.mem_map.mp inside
    exact shaped.sizes other otherMem
  exact List.single_le_sum nonneg file.size (List.mem_map_of_mem mem)

/-! ### The bound on the total -/

/-- The totals that an int64 takes for a small or a negative number. -/
def Overflows (total : Int) : Prop :=
  2 ^ 63 ≤ total ∧ (total % 2 ^ 64 ≤ maxTotalBytes ∨ 2 ^ 63 ≤ total % 2 ^ 64)

instance : DecidablePred Overflows := fun _ => inferInstanceAs (Decidable (_ ∧ _))

theorem overflows_iff {total : Int} :
    Overflows total ↔ total.bmod (2 ^ 64) ≤ maxTotalBytes ∧ ¬ total ≤ maxTotalBytes := by
  unfold Overflows maxTotalBytes
  rw [Int.bmod_def]
  constructor
  · intro wraps
    split <;> omega
  · intro small
    split at small <;> omega

/-- What Validate accepts is a skill of bounded size, unless its total overflows. -/
theorem validate_bounds (files : List FileInfo) :
    (validate files = .ok () →
      (files.map FileInfo.path).Nodup ∧ (∀ file ∈ files, cleanPath file.path = true) ∧
        skillMD ∈ files.map FileInfo.path ∧ (∀ file ∈ files, 0 ≤ file.size) ∧ total files ≤ maxTotalBytes) ↔
      ¬ (Shaped files ∧ Overflows (total files)) := by
  rw [validate_ok]
  constructor
  · intro bounded wraps
    obtain ⟨shaped, overflows⟩ := wraps
    obtain ⟨small, large⟩ := overflows_iff.mp overflows
    exact large (bounded ⟨shaped, small⟩).2.2.2.2
  · intro sound accepted
    obtain ⟨shaped, small⟩ := accepted
    refine ⟨shaped.nodup, shaped.clean, shaped.rooted, shaped.sizes, ?_⟩
    by_contra large
    exact sound ⟨shaped, overflows_iff.mpr ⟨small, large⟩⟩

/-- Two files of 2^62 bytes each add up to the least int64. -/
theorem huge_skill_accepted : ∃ files : List FileInfo, (∀ file ∈ files, 0 ≤ file.size ∧ file.size < 2 ^ 63) ∧
    validate files = .ok () ∧ ¬ total files ≤ maxTotalBytes :=
  ⟨[⟨skillMD, 2 ^ 62⟩, ⟨['a'], 2 ^ 62⟩], by decide +kernel, by decide +kernel, by decide +kernel⟩

end Dropway.Skillspec
