import Dropway.Dashboard.DeployManifest
import Dropway.Lib.CodeOrder
import Dropway.Sdk.Deploy

/-! The digest of one deploy as the dashboard, the SDK and the server compute it.
They differ in the order of the paths only. -/

namespace Dropway.Api
open Lib

variable {files : List ManifestFile} {hash : Sha256}

/-- The server accepts the digests of both clients, whatever the hash function is. -/
def DigestsAlike (files : List ManifestFile) : Prop :=
  ∀ hash, Dashboard.computeDigest hash files = digest hash files ∧ Sdk.digest hash files = digest hash files

/-- No two paths part where one has a character past the surrogates and the other a pair. -/
def NoneStraddle (files : List ManifestFile) : Prop :=
  ∀ one ∈ files, ∀ two ∈ files, one.path.straddles two.path = false

instance : Decidable (NoneStraddle files) := inferInstanceAs (Decidable (∀ one ∈ files, _))

private theorem pathLe_iff {one two : ManifestFile} : one.PathLe two ↔ ¬ two.path < one.path := not_lt.symm

theorem sdk_digest_eq (hash : Sha256) (files : List ManifestFile) :
    Sdk.digest hash files = digest hash files := by
  have order : files.insertionSort Sdk.ByPath = files.insertionSort ManifestFile.PathLe := by
    have same : Sdk.ByPath = ManifestFile.PathLe := by
      funext one two
      rw [eq_iff_iff, pathLe_iff, Sdk.ByPath, Utf8.encode_lt_iff]
    congr!
  rw [Sdk.digest, digest, order]
  simp only [Utf8.encode, List.flatMap_assoc]

/-! ### The dashboard's order -/

instance : Std.Total Dashboard.ByPath where
  total one two := by
    rcases List.le_total one.path.utf16 two.path.utf16 with below | above
    · exact .inl below
    · exact .inr above

instance : IsTrans ManifestFile Dashboard.ByPath where
  trans _ _ _ first second := List.le_trans (α := Nat) first second

instance : Std.Total ManifestFile.PathLe where
  total one two := le_total one.path two.path

instance : IsTrans ManifestFile ManifestFile.PathLe where
  trans _ _ _ first second := le_trans (α := Text) first second

private theorem byPath_iff {one two : ManifestFile} (apart : one.path.straddles two.path = false)
    (also : two.path.straddles one.path = false) : Dashboard.ByPath one two ↔ one.PathLe two := by
  rw [Dashboard.ByPath, pathLe_iff, Text.utf16_lt_iff, apart, also]
  simp

theorem dashboard_digest_eq (none : NoneStraddle files) (hash : Sha256) :
    Dashboard.computeDigest hash files = digest hash files := by
  have order := List.map_insertionSort (r := Dashboard.ByPath) (s := ManifestFile.PathLe) id files
    fun one mem two also => byPath_iff (none one mem two also) (none two also one mem)
  rw [List.map_id, List.map_id] at order
  rw [Dashboard.computeDigest, digest, order]

/-! ### Where the orders differ -/

/-- A list is not in both orders if one of its paths straddles another. -/
private theorem none_straddle_of_sorted (units : files.Pairwise Dashboard.ByPath)
    (points : files.Pairwise ManifestFile.PathLe) : NoneStraddle files := by
  intro one mem two also
  rw [Bool.eq_false_iff]
  intro straddle
  have points' := Text.lt_of_straddles straddle
  have units' : two.path.utf16 < one.path.utf16 := Text.utf16_lt_iff.mpr (.inl straddle)
  have differ : one ≠ two := by
    rintro rfl
    exact List.lt_irrefl _ points'
  let Either (a b : ManifestFile) : Prop :=
    (Dashboard.ByPath a b ∧ a.PathLe b) ∨ (Dashboard.ByPath b a ∧ b.PathLe a)
  have symm : Std.Symm Either := ⟨fun a b => Or.symm⟩
  have both : files.Pairwise Either := (units.and points).imp fun order => .inl order
  rcases both.forall mem also differ with ⟨first, _⟩ | ⟨_, second⟩
  · exact first units'
  · exact pathLe_iff.mp second points'

private theorem lt_append {ν : Type} [LT ν] (front : List ν) {back : List ν} (longer : back ≠ []) :
    front < front ++ back := by
  obtain ⟨unit, more, rfl⟩ := List.exists_cons_of_ne_nil longer
  have less : front ++ [] < front ++ unit :: more := List.append_left_lt (List.nil_lt_cons unit more)
  rwa [List.append_nil] at less

/-- Of two lines that begin one text, the shorter path is first in both orders. -/
private theorem line_prefix {one two : ManifestFile} {rest more : Text}
    (width : one.sha256.length = two.sha256.length) (differ : one.path ≠ two.path)
    (same : digestLine one ++ rest = digestLine two ++ more) :
    (¬ Dashboard.ByPath two one ∧ ¬ two.PathLe one) ∨ (¬ Dashboard.ByPath one two ∧ ¬ one.PathLe two) := by
  have shorter {one two : ManifestFile} (front : one.path <+: two.path) (differ : one.path ≠ two.path) :
      ¬ Dashboard.ByPath two one ∧ ¬ two.PathLe one := by
    obtain ⟨back, longer⟩ := front
    have extra : back ≠ [] := by
      rintro rfl
      exact differ ((List.append_nil _).symm.trans longer)
    refine ⟨fun order => order ?_, fun order => pathLe_iff.mp order ?_⟩
    · obtain ⟨c, letters, rfl⟩ := List.exists_cons_of_ne_nil extra
      rw [← longer, Text.utf16, Text.utf16, List.flatMap_append]
      exact lt_append _ (List.append_ne_nil_of_left_ne_nil (Text.orders.nonempty c) _)
    · rw [← longer]
      exact lt_append _ extra
  simp only [digestLine, List.append_assoc] at same
  obtain ⟨-, same⟩ := List.append_inj same width
  have paths := List.append_cancel_left same
  rcases List.prefix_or_prefix_of_prefix (List.prefix_append one.path _)
      (paths ▸ List.prefix_append two.path _) with front | front
  · exact .inl (shorter front differ)
  · exact .inr (shorter front (Ne.symm differ))

/-- Two orders of the same files spell the same bytes only if they are one. -/
private theorem sorted_eq {units points : List ManifestFile} (perm : units.Perm points)
    (distinct : (units.map ManifestFile.path).Nodup) (width : ∀ file ∈ units, file.sha256.length = 64)
    (inUnits : units.Pairwise Dashboard.ByPath) (inPoints : points.Pairwise ManifestFile.PathLe)
    (same : units.flatMap digestLine = points.flatMap digestLine) : units = points := by
  induction units generalizing points with
  | nil => exact (perm.symm.eq_nil).symm
  | cons one rest ih =>
    cases points with
    | nil => cases perm.eq_nil
    | cons two more =>
      rw [List.flatMap_cons, List.flatMap_cons] at same
      have twoMem : two ∈ one :: rest := perm.mem_iff.mpr List.mem_cons_self
      have oneMem : one ∈ two :: more := perm.mem_iff.mp List.mem_cons_self
      by_cases path : one.path = two.path
      · obtain rfl : one = two := List.inj_on_of_nodup_map distinct List.mem_cons_self twoMem path
        rw [List.append_cancel_left_eq] at same
        rw [ih (List.Perm.cons_inv perm) (List.nodup_cons.mp distinct).2
          (fun file mem => width file (List.mem_cons_of_mem _ mem)) inUnits.tail inPoints.tail same]
      · have equal := (width one List.mem_cons_self).trans (width two twoMem).symm
        have later : two ∈ rest := (List.mem_cons.mp twoMem).resolve_left fun here => path (here ▸ rfl)
        have later' : one ∈ more := (List.mem_cons.mp oneMem).resolve_left fun here => path (here ▸ rfl)
        rcases line_prefix equal path same with ⟨_, order⟩ | ⟨order, _⟩
        · exact absurd (List.rel_of_pairwise_cons inPoints later') order
        · exact absurd (List.rel_of_pairwise_cons inUnits later) order

/-- A hash that hides nothing of what it is fed. -/
def plainHash (bytes : Bytes) : Text := bytes.map fun byte => Char.ofNat byte.toNat

private theorem plainHash_injective : Function.Injective plainHash := by
  have back (byte : UInt8) : (Char.ofNat byte.toNat).toNat = byte.toNat := by
    have valid : byte.toNat.isValidChar := .inl (by have := byte.toNat_lt; omega)
    rw [Char.ofNat, dif_pos valid]
    rfl
  apply List.map_injective_iff.mpr
  intro one two same
  exact UInt8.toNat_inj.mp ((back one).symm.trans ((congrArg Char.toNat same).trans (back two)))

/-- The digests agree where no two paths straddle; with hashes of the proper length, nowhere else. -/
theorem digests_alike_iff (distinct : (files.map ManifestFile.path).Nodup) :
    (NoneStraddle files → DigestsAlike files) ∧
      ((∀ file ∈ files, file.sha256.length = 64) → DigestsAlike files → NoneStraddle files) := by
  refine ⟨fun none hash => ⟨dashboard_digest_eq none hash, sdk_digest_eq hash files⟩, fun width alike => ?_⟩
  have fed := Utf8.encode_injective (plainHash_injective (alike plainHash).1)
  have perm := List.perm_insertionSort Dashboard.ByPath files
  have perm' := List.perm_insertionSort ManifestFile.PathLe files
  have one := sorted_eq (perm.trans perm'.symm) ((perm.map _).nodup_iff.mpr distinct)
    (fun file mem => width file (perm.mem_iff.mp mem)) (List.pairwise_insertionSort _ files)
    (List.pairwise_insertionSort _ files) fed
  have none := none_straddle_of_sorted (List.pairwise_insertionSort Dashboard.ByPath files)
    (one ▸ List.pairwise_insertionSort ManifestFile.PathLe files)
  exact fun one mem two also => none one (perm.mem_iff.mpr mem) two (perm.mem_iff.mpr also)

private def smileyFile (path : Text) : ManifestFile :=
  { path, sha256 := List.replicate 64 '0', size := 0, contentType := "text/html".toList }

/-- A full-width letter and a smiley. -/
def smileyFiles : List ManifestFile := [smileyFile [Char.ofNat 0xFF21], smileyFile [Char.ofNat 0x1F600]]

/-- What the dashboard hashes is not what the server hashes. -/
theorem smiley_refused : (smileyFiles.map ManifestFile.path).Nodup ∧ ¬ DigestsAlike smileyFiles := by
  refine ⟨by decide, fun alike => ?_⟩
  have fed := Utf8.encode_injective (plainHash_injective (alike plainHash).1)
  exact absurd fed (by decide +kernel)

theorem smiley_alike_iff : (NoneStraddle smileyFiles → DigestsAlike smileyFiles) ∧
    ((∀ file ∈ smileyFiles, file.sha256.length = 64) → DigestsAlike smileyFiles → NoneStraddle smileyFiles) :=
  digests_alike_iff (by decide)

end Dropway.Api
