import Dropway.Edge.Content
import Mathlib.Data.List.TakeWhile

/-! What cleaning a request path keeps. Cleaning is done segment by segment, so
a path behind further segments cleans to something longer. -/

namespace Dropway.Proofs.RequestPath
open Dropway.Lib Dropway.Lib.Uri Dropway.Edge

theorem segmentsOf_append (front back : Text) :
    segmentsOf (front ++ '/' :: back) =
      (segmentsOf front).bind fun f => (segmentsOf ('/' :: back)).map (f ++ ·) := by
  have lone : ('/' :: back).splitOn '/' = [] :: back.splitOn '/' :=
    List.splitOn_append_cons_self [] back
  simp only [segmentsOf, List.splitOn_append_cons_self, lone]
  by_cases up : ['.', '.'] ∈ front.splitOn '/'
  · simp [up]
  · by_cases up' : ['.', '.'] ∈ back.splitOn '/'
    · simp [up, up']
    · simp [up, up']

theorem segmentsOf_dropSlashes (decoded : Text) :
    segmentsOf (decoded.dropWhile (· = '/')) = segmentsOf decoded := by
  induction decoded with
  | nil => rfl
  | cons c rest ih =>
    by_cases slash : c = '/'
    · subst slash
      have lone : ('/' :: rest).splitOn '/' = [] :: rest.splitOn '/' :=
        List.splitOn_append_cons_self [] rest
      rw [List.dropWhile_cons_of_pos (by simp), ih]
      simp [segmentsOf, lone]
    · rw [List.dropWhile_cons_of_neg (by simpa using slash)]

/-- Cleaning, with the decoded path in view. -/
theorem cleanPath_some {rawPath clean : Text} (plain : ∀ c ∈ rawPath, c ≠ '?' ∧ c ≠ '#') :
    cleanPath rawPath = some clean ↔
      ∃ decoded segments, decodeURIComponent rawPath = some decoded ∧
        '\x00' ∉ decoded ∧ '\\' ∉ decoded ∧ segmentsOf decoded = some segments ∧
        clean = (if (1 < decoded.length ∧ decoded.getLast? = some '/') ∧
            ['/'].intercalate segments ≠ []
          then ['/'].intercalate segments ++ ['/']
          else ['/'].intercalate segments) := by
  have whole : (rawPath.takeWhile fun c => decide (c ≠ '?' ∧ c ≠ '#')) = rawPath :=
    List.takeWhile_eq_self_iff.mpr fun c member => by simpa using plain c member
  simp only [cleanPath, whole, segmentsOf_dropSlashes]
  constructor
  · intro cleaned
    cases decoding : decodeURIComponent rawPath with
    | none => simp [decoding] at cleaned
    | some decoded =>
      by_cases bad : '\x00' ∈ decoded ∨ '\\' ∈ decoded
      · simp [decoding, bad] at cleaned
      · cases split : segmentsOf decoded with
        | none => simp [decoding, bad, split] at cleaned
        | some segments =>
          refine ⟨decoded, segments, rfl, fun m => bad (.inl m), fun m => bad (.inr m), split, ?_⟩
          simpa [decoding, bad, split] using cleaned.symm
  · rintro ⟨decoded, segments, decoding, noNul, noBack, split, rfl⟩
    simp [decoding, noNul, noBack, split]

/-- A segment that decoding and cleaning keep. -/
structure Keeps (segment : Text) : Prop where
  literal : '%' ∉ segment
  slash : '/' ∉ segment
  nonempty : segment ≠ []
  notDot : segment ≠ ['.']
  notDotDot : segment ≠ ['.', '.']

private theorem segmentsOf_keeps {last : Text} (keeps : Keeps last) :
    segmentsOf ('/' :: last) = some [last] := by
  have lone : ('/' :: last).splitOn '/' = [[], last] := by
    rw [← List.nil_append ('/' :: last), List.splitOn_append_cons_self,
      List.splitOn_eq_singleton keeps.slash]
    rfl
  have notUp := keeps.notDotDot.symm
  simp [segmentsOf, lone, keeps.nonempty, keeps.notDot, notUp]

private theorem serialize_plain {segments : List Text} (plain : ∀ s ∈ segments, Plain s) :
    ∀ c ∈ serialize segments, c ≠ '?' ∧ c ≠ '#' := by
  have encoded (c : Char) (kept : pathChar c) : c ≠ '?' ∧ c ≠ '#' := by
    constructor <;> rintro rfl <;> exact absurd kept (by decide)
  intro c member
  obtain ⟨segment, inside, here⟩ := List.mem_flatMap.mp member
  rcases List.mem_cons.mp here with rfl | here
  · decide
  · exact encoded c ((plain segment inside).1 c here).1

/-- What decoding gives for a path behind further segments. -/
private theorem decode_behind {front : List Text} {last : Text} {back : List Text}
    (keeps : Keeps last) (nonempty : back ≠ []) {decoded : Text}
    (decoding : decodeURIComponent (serialize (front ++ last :: back)) = some decoded) :
    ∃ first second, decodeURIComponent (serialize back) = some ('/' :: second) ∧
      decoded = (first ++ '/' :: last) ++ '/' :: second := by
  obtain ⟨rest, shape⟩ : ∃ rest, serialize back = '/' :: rest := by
    cases back with
    | nil => exact absurd rfl nonempty
    | cons segment back => exact ⟨_, rfl⟩
  have whole : serialize (front ++ last :: back) = (serialize front ++ '/' :: last) ++ '/' :: rest := by
    rw [← shape]; simp [serialize]
  have named : decodeURIComponent ('/' :: last) = some ('/' :: last) := by
    rw [decodeURIComponent_char (by decide), decodeURIComponent_literal keeps.literal]; rfl
  rw [whole, decodeURIComponent_append_slash, decodeURIComponent_append_slash, named] at decoding
  cases first : decodeURIComponent (serialize front) with
  | none => simp [first] at decoding
  | some first' =>
    rw [decodeURIComponent_char (by decide)] at decoding
    cases second : decodeURIComponent rest with
    | none => simp [first, second] at decoding
    | some second' =>
      refine ⟨first', second', ?_, by simpa [first, second] using decoding.symm⟩
      rw [shape, decodeURIComponent_char (by decide), second]
      rfl

private theorem join_append {front back : List Text} (hf : front ≠ []) (hb : back ≠ []) :
    ['/'].intercalate (front ++ back) = ['/'].intercalate front ++ '/' :: ['/'].intercalate back := by
  induction front with
  | nil => exact absurd rfl hf
  | cons segment front ih =>
    by_cases more : front = []
    · subst more
      simp [List.intercalate_cons_of_ne_nil hb]
    · rw [List.cons_append, List.intercalate_cons_of_ne_nil (by simp [more]), ih more,
        List.intercalate_cons_of_ne_nil more]
      simp

private theorem join_ne_nil {segments : List Text} (some' : segments ≠ [])
    (kept : ∀ s ∈ segments, s ≠ []) : ['/'].intercalate segments ≠ [] := by
  cases segments with
  | nil => exact absurd rfl some'
  | cons segment rest =>
    have here := kept segment (by simp)
    by_cases more : rest = []
    · simpa [more] using here
    · simp [List.intercalate_cons_of_ne_nil more]

private theorem segmentsOf_nonempty {decoded : Text} {segments : List Text}
    (split : segmentsOf decoded = some segments) : ∀ s ∈ segments, s ≠ [] := by
  by_cases up : ['.', '.'] ∈ decoded.splitOn '/'
  · simp [segmentsOf, up] at split
  · simp only [segmentsOf, up, if_false, Option.some.injEq] at split
    subst split
    intro s member
    simp only [List.mem_filter, decide_eq_true_eq] at member
    exact member.2.1

private theorem getLast?_behind (front : Text) (c : Char) (back : Text) :
    (front ++ c :: back).getLast? = (c :: back).getLast? := by
  rw [List.getLast?_append]
  cases h : (c :: back).getLast? with
  | none => simp at h
  | some last => rfl

/-- A path behind further segments cleans to something behind at least one
segment more, or to those segments alone when nothing of the path remains. -/
theorem cleanPath_behind {front : List Text} {last : Text} {back : List Text} {clean : Text}
    (keeps : Keeps last) (nonempty : back ≠ []) (plain : ∀ s ∈ front ++ last :: back, Plain s)
    (cleaned : cleanPath (serialize (front ++ last :: back)) = some clean) :
    ∃ short, cleanPath (serialize back) = some short ∧
      ((short ≠ [] ∧ ∃ before, clean = before ++ '/' :: short) ∨
        (short = [] ∧ ∃ before : List Text, ∃ slash : Text,
          (slash = [] ∨ slash = ['/']) ∧ clean = ['/'].intercalate (before ++ [last]) ++ slash)) := by
  have plainBack : ∀ s ∈ back, Plain s := fun s member => plain s (by simp [member])
  obtain ⟨decoded, segments, decoding, noNul, noBack, split, shape⟩ :=
    (cleanPath_some (serialize_plain plain)).mp cleaned
  obtain ⟨first, second, tail, rfl⟩ := decode_behind keeps nonempty decoding
  rw [segmentsOf_append, segmentsOf_append, segmentsOf_keeps keeps] at split
  cases f : segmentsOf first with
  | none => simp [f] at split
  | some before =>
    cases s : segmentsOf ('/' :: second) with
    | none => simp [f, s] at split
    | some after =>
      have joined : segments = (before ++ [last]) ++ after := by simpa [f, s] using split.symm
      refine ⟨_, (cleanPath_some (serialize_plain plainBack)).mpr
        ⟨'/' :: second, after, tail, fun m => noNul (List.mem_append_right _ m),
          fun m => noBack (List.mem_append_right _ m), s, rfl⟩, ?_⟩
      have longer : 1 < ((first ++ '/' :: last) ++ '/' :: second).length := by
        simp only [List.length_append, List.length_cons]; omega
      rw [joined, getLast?_behind] at shape
      by_cases rest : after = []
      · subst rest
        refine .inr ⟨by simp, before, ?_⟩
        rw [List.append_nil] at shape
        split at shape
        · exact ⟨['/'], .inr rfl, shape⟩
        · exact ⟨[], .inl rfl, by rw [shape, List.append_nil]⟩
      · have long : 1 < ('/' :: second).length := by
          cases second with
          | nil => exact absurd (Option.some.inj (s.symm.trans (by decide))) rest
          | cons c second => simp
        have present := join_ne_nil rest (segmentsOf_nonempty s)
        have apart : before ++ [last] ≠ [] := by simp
        have split := join_append apart rest
        have present' : ['/'].intercalate (before ++ [last] ++ after) ≠ [] := by
          rw [split]; simp
        refine .inl ⟨?_, ['/'].intercalate (before ++ [last]), ?_⟩
        · split <;> simp [present]
        · by_cases ended : ('/' :: second).getLast? = some '/'
          · rw [shape, if_pos ⟨⟨longer, ended⟩, present'⟩, if_pos ⟨⟨long, ended⟩, present⟩, split]
            simp
          · rw [shape, if_neg fun both => ended both.1.2, if_neg fun both => ended both.1.2, split]

end Dropway.Proofs.RequestPath
