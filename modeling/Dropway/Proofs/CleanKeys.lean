import Dropway.Lib.Encoded
import Dropway.Proofs.RequestPath

/-! The paths that requests clean to. A clean path, percent-encoded segment by segment, is
a reference that every URL of the host resolves to a request for it. -/

namespace Dropway.Edge
open Lib Lib.Uri

variable {path : Text}

/-- The path of a file, percent-encoded segment by segment. -/
def requestFor (path : Text) : Text := '/' :: ['/'].intercalate ((path.splitOn '/').map encodeURIComponent)

/-- A path that cleaning leaves as it is. -/
structure CleanKey (path : Text) : Prop where
  segments : ∀ segment ∈ path.splitOn '/', segment ≠ [] ∧ segment ≠ ['.'] ∧ segment ≠ ['.', '.']
  nul : '\x00' ∉ path
  backslash : '\\' ∉ path

private theorem component_chars (text : Text) : ∀ c ∈ encodeURIComponent text, c ≠ '?' ∧ c ≠ '#' := by
  intro c mem
  obtain ⟨d, -, here⟩ := List.mem_flatMap.mp mem
  split at here
  · rename_i keeps
    rw [List.mem_singleton.mp here]
    constructor
    · rintro rfl
      cases keeps
    · rintro rfl
      cases keeps
  · rcases percentEncode_chars d c here with rfl | letter
    · decide
    · constructor
      · rintro rfl
        cases letter
      · rintro rfl
        cases letter

private theorem decode_component (text rest : Text) :
    decodeURIComponent (encodeURIComponent text ++ rest) = (decodeURIComponent rest).map (text ++ ·) := by
  refine decodeURIComponent_encodeWith (fun c _ keeps => ?_) rest
  rintro rfl
  cases keeps

private theorem decode_components (segments : List Text) :
    decodeURIComponent (['/'].intercalate (segments.map encodeURIComponent)) = some (['/'].intercalate segments) := by
  induction segments with
  | nil => rfl
  | cons segment rest ih =>
    cases rest with
    | nil =>
      have alone := decode_component segment []
      rw [List.append_nil] at alone
      rw [List.map_singleton, List.intercalate_singleton, List.intercalate_singleton, alone]
      exact congrArg some (List.append_nil segment)
    | cons next rest =>
      rw [List.map_cons] at ih
      rw [List.map_cons, List.map_cons, List.intercalate_cons_cons, List.intercalate_cons_cons, List.append_assoc,
        decode_component, List.singleton_append, decodeURIComponent_char (by decide), ih]
      simp

private theorem components_chars (segments : List Text) :
    ∀ c ∈ ['/'].intercalate (segments.map encodeURIComponent), c ≠ '?' ∧ c ≠ '#' := by
  induction segments with
  | nil => exact fun c mem => (by cases mem)
  | cons segment rest ih =>
    cases rest with
    | nil =>
      rw [List.map_singleton, List.intercalate_singleton]
      exact component_chars segment
    | cons next rest =>
      rw [List.map_cons] at ih
      rw [List.map_cons, List.map_cons, List.intercalate_cons_cons]
      intro c mem
      rcases List.mem_append.mp mem with mem | mem
      · rcases List.mem_append.mp mem with mem | mem
        · exact component_chars segment c mem
        · rw [List.mem_singleton.mp mem]
          decide
      · exact ih c mem

theorem requestFor_chars (path : Text) : ∀ c ∈ requestFor path, c ≠ '?' ∧ c ≠ '#' := by
  intro c mem
  rcases List.mem_cons.mp mem with rfl | mem
  · decide
  · exact components_chars _ c mem

theorem requestFor_decoded (path : Text) : decodeURIComponent (requestFor path) = some ('/' :: path) := by
  rw [requestFor, decodeURIComponent_char (by decide), decode_components, List.intercalate_splitOn]
  rfl

private theorem segmentsOf_rooted (path : Text) : segmentsOf ('/' :: path) = segmentsOf path := by
  have rooted : ('/' :: path).splitOn '/' = [] :: path.splitOn '/' := List.splitOn_append_cons_self [] path
  simp [segmentsOf, rooted]

/-- Where a path ends in no separator, cleaning joins the segments that it keeps. -/
private theorem cleanPath_requestFor {clean : Text} (named : path ≠ []) (open' : path.getLast? ≠ some '/') :
    cleanPath (requestFor path) = some clean ↔ '\x00' ∉ path ∧ '\\' ∉ path ∧
      ∃ segments, segmentsOf path = some segments ∧ clean = ['/'].intercalate segments := by
  have ends : ('/' :: path).getLast? = path.getLast? := by
    rw [List.getLast?_cons, List.getLast?_eq_some_getLast named]
    rfl
  have member (c : Char) (apart : c ≠ '/') : c ∈ '/' :: path ↔ c ∈ path := by
    rw [List.mem_cons, or_iff_right apart]
  rw [Proofs.RequestPath.cleanPath_some (requestFor_chars path), requestFor_decoded]
  simp only [Option.some.injEq, exists_and_left, exists_eq_left', member '\x00' (by decide), member '\\' (by decide),
    segmentsOf_rooted, ends, open', and_false, false_and, if_false]

/-- A path is requested and found under its own name exactly where it is clean. -/
theorem cleanKey_iff : CleanKey path ↔
    cleanPath (requestFor path) = some path ∧ path ≠ [] ∧ path.getLast? ≠ some '/' := by
  have joined : ['/'].intercalate (path.splitOn '/') = path := List.intercalate_splitOn '/'
  constructor
  · intro clean
    have named : path ≠ [] := by
      rintro rfl
      exact (clean.segments [] (List.mem_singleton_self [])).1 rfl
    have open' : path.getLast? ≠ some '/' := by
      intro last
      obtain ⟨front, rfl⟩ := List.getLast?_eq_some_iff.mp last
      have empty : [] ∈ (front ++ ['/']).splitOn '/' := by
        rw [List.splitOn_append_cons_self]
        exact List.mem_append_right _ (List.mem_singleton_self [])
      exact (clean.segments [] empty).1 rfl
    refine ⟨(cleanPath_requestFor named open').mpr ⟨clean.nul, clean.backslash, path.splitOn '/', ?_, joined.symm⟩,
      named, open'⟩
    have level : ['.', '.'] ∉ path.splitOn '/' := fun mem => (clean.segments _ mem).2.2 rfl
    have kept : (path.splitOn '/').filter (fun segment => segment ≠ [] ∧ segment ≠ ['.']) = path.splitOn '/' := by
      refine List.filter_eq_self.mpr fun segment mem => decide_eq_true ?_
      exact ⟨(clean.segments segment mem).1, (clean.segments segment mem).2.1⟩
    simp only [segmentsOf, if_neg level]
    exact congrArg some kept
  · rintro ⟨cleaned, named, open'⟩
    obtain ⟨nul, backslash, segments, split, same⟩ := (cleanPath_requestFor named open').mp cleaned
    simp only [segmentsOf] at split
    split at split
    · cases split
    rename_i level
    cases split
    -- Segments that were dropped would be missing from the path.
    have whole : path.splitOn '/' = (path.splitOn '/').filter fun segment => segment ≠ [] ∧ segment ≠ ['.'] := by
      have free : ∀ segment ∈ (path.splitOn '/').filter (fun segment => segment ≠ [] ∧ segment ≠ ['.']),
          '/' ∉ segment := fun segment mem => splitOn_free '/' path segment (List.mem_of_mem_filter mem)
      have some' : (path.splitOn '/').filter (fun segment => segment ≠ [] ∧ segment ≠ ['.']) ≠ [] := by
        intro none
        rw [none] at same
        exact named same
      conv_lhs => rw [same]
      exact List.splitOn_intercalate '/' free some'
    refine ⟨fun segment mem => ?_, nul, backslash⟩
    have inside := mem
    rw [whole] at inside
    have kept := of_decide_eq_true (List.mem_filter.mp inside).2
    refine ⟨kept.1, kept.2, ?_⟩
    rintro rfl
    exact level mem

end Dropway.Edge
