import Dropway.Edge.ManifestText
import Dropway.Proofs.PathAgreement
import Dropway.Serve.Manifest

/-! Which entry the Worker and the Go server find at a path. The Worker looks it
up in a plain object, which has names of its own, and the two do not read the
same members of a manifest. -/

namespace Dropway.Edge
open Lib

variable {files result : Files} {path other : Text} {entry : ManifestEntry} {name : List Glyph}
  {members : List (List Glyph × Doc)} {doc : Doc} {manifest : Manifest}

def protoName : Text := "__proto__".toList

/-- The entry that was assigned to a path. -/
def Files.lookup (files : Files) (path : Text) : Option ManifestEntry :=
  if path = protoName then files.proto else (files.own.find? (·.1 = path)).map (·.2)

/-- Assigning to `__proto__` makes no own property. -/
def Files.Clean (files : Files) : Prop := ∀ file ∈ files.own, file.1 ≠ protoName

/-- The path is one of the names that the object inherits. -/
def Files.Inherits (files : Files) (path : Text) : Prop :=
  path ∈ objectPrototype ∨ ∃ proto, files.proto = some proto ∧ path ∈ proto.fields

private theorem set_proto : files.set protoName entry = { files with proto := some entry } := if_pos rfl

private theorem set_own (plain : path ≠ protoName) :
    files.set path entry = { files with own := files.own.filter (·.1 ≠ path) ++ [(path, entry)] } :=
  if_neg plain

private theorem lookup_own (plain : path ≠ protoName) :
    files.lookup path = (files.own.find? (·.1 = path)).map (·.2) := if_neg plain

private theorem lookup_proto : files.lookup protoName = files.proto := if_pos rfl

theorem Files.lookup_set : (files.set path entry).lookup other =
    if other = path then some entry else files.lookup other := by
  by_cases proto : path = protoName
  · subst proto
    rw [set_proto]
    by_cases same : other = protoName
    · rw [if_pos same, same, lookup_proto]
    · rw [if_neg same, lookup_own same, lookup_own same]
  · rw [set_own proto]
    by_cases same : other = path
    · subst same
      have fresh : (files.own.filter fun file => file.1 ≠ other).find? (fun file => file.1 = other) = none := by
        rw [List.find?_eq_none]
        intro file mem equal
        exact absurd (of_decide_eq_true equal) (of_decide_eq_true (List.mem_filter.mp mem).2)
      rw [if_pos rfl, lookup_own proto, List.find?_append, fresh]
      simp
    · rw [if_neg same]
      by_cases asked : other = protoName
      · rw [asked, lookup_proto, lookup_proto]
      · have last : [(path, entry)].find? (fun file => decide (file.1 = other)) = none := by
          simp [Ne.symm same]
        rw [lookup_own asked, lookup_own asked, List.find?_append, List.find?_filter, last, Option.or_none]
        congr 2
        funext file
        by_cases here : file.1 = other
        · simp [here, same]
        · simp [here]

theorem Files.Clean.set (clean : files.Clean) : (files.set path entry).Clean := by
  by_cases proto : path = protoName
  · subst proto
    rw [set_proto]
    exact clean
  · rw [set_own proto]
    intro file mem
    rcases List.mem_append.mp mem with mem | mem
    · exact clean file (List.mem_filter.mp mem).1
    · rw [List.mem_singleton.mp mem]
      exact proto

private theorem own_proto (clean : files.Clean) :
    files.own.find? (fun file => decide (file.1 = protoName)) = none := by
  rw [List.find?_eq_none]
  intro file mem equal
  exact clean file mem (of_decide_eq_true equal)

theorem Files.get_assigned (clean : files.Clean) (assigned : files.lookup path = some entry) :
    files.get path = some (.entry entry) := by
  by_cases asked : path = protoName
  · subst asked
    rw [lookup_proto] at assigned
    simp only [Files.get, own_proto clean, assigned]
    exact if_pos rfl
  · rw [lookup_own asked] at assigned
    obtain ⟨file, own, rfl⟩ := Option.map_eq_some_iff.mp assigned
    simp only [Files.get, own]

/-- What is inherited is found where nothing was assigned. -/
theorem Files.get_unassigned (clean : files.Clean) (unassigned : files.lookup path = none) :
    (files.Inherits path → files.get path = some .inherited) ∧
      (¬ files.Inherits path → files.get path = none) := by
  have fresh : files.own.find? (fun file => decide (file.1 = path)) = none := by
    by_cases asked : path = protoName
    · exact asked ▸ own_proto clean
    · rwa [lookup_own asked, Option.map_eq_none_iff] at unassigned
  cases proto : files.proto with
  | none =>
    have inherits : files.Inherits path ↔ path ∈ objectPrototype := by simp [Files.Inherits, proto]
    simp only [Files.get, fresh, proto, inherits]
    exact ⟨fun known => if_pos known, fun strange => if_neg strange⟩
  | some entry =>
    have apart : ¬ path = "__proto__".toList := by
      intro asked
      rw [show path = protoName from asked, lookup_proto, proto] at unassigned
      cases unassigned
    have inherits : files.Inherits path ↔ path ∈ entry.fields ∨ path ∈ objectPrototype := by
      simp [Files.Inherits, proto, or_comm]
    simp only [Files.get, fresh, proto, if_neg apart, inherits]
    exact ⟨fun known => if_pos known, fun strange => if_neg strange⟩

theorem pathOf_eq_some : pathOf name = some path ↔ jsName name = path.map .char := by
  rw [pathOf]
  generalize jsName name = glyphs
  induction glyphs generalizing path with
  | nil => cases path <;> simp
  | cons glyph rest ih =>
    rw [List.mapM_cons, Option.bind_eq_bind, Option.bind_eq_some_iff]
    constructor
    · rintro ⟨c, plain, more⟩
      obtain ⟨tail, read, same⟩ := Option.bind_eq_some_iff.mp more
      cases same
      cases glyph with
      | char d =>
        cases plain
        rw [List.map_cons, ih.mp read]
      | _ => cases plain
    · intro same
      cases path with
      | nil => cases same
      | cons d path =>
        rw [List.map_cons, List.cons.injEq] at same
        rw [same.1]
        exact ⟨d, rfl, Option.bind_eq_some_iff.mpr ⟨path, ih.mpr same.2, rfl⟩⟩

theorem Files.lookup_assign : (files.assign name entry).lookup path =
    if jsName name = path.map .char then some entry else files.lookup path := by
  unfold Files.assign
  cases found : pathOf name with
  | none =>
    have strange : ¬ jsName name = path.map .char := by
      rw [← pathOf_eq_some, found]
      exact Option.some_ne_none path ∘ Eq.symm
    exact (if_neg strange).symm
  | some here =>
    rw [Files.lookup_set]
    by_cases same : path = here
    · subst same
      rw [if_pos rfl, if_pos (pathOf_eq_some.mp found)]
    · have differs : ¬ jsName name = path.map .char := by
        rw [← pathOf_eq_some, found, Option.some.injEq]
        exact Ne.symm same
      rw [if_neg same, if_neg differs]

theorem Files.Clean.assign (clean : files.Clean) : (files.assign name entry).Clean := by
  unfold Files.assign
  split
  · exact clean.set
  · exact clean

/-- The entry of the last member with the path's name is the one that is assigned. -/
private theorem assigned_all {start : Files} (clean : start.Clean)
    (read : members.foldlM (fun files member =>
      (parseEntry member.2.value).map (Files.assign files member.1)) start = some result) :
    result.Clean ∧ (∀ member ∈ members, (parseEntry member.2.value).isSome) ∧
      ∀ path, result.lookup path =
        ((lastWith (fun member => jsName member.1) (path.map .char) members).bind fun member =>
          parseEntry member.2.value).or (start.lookup path) := by
  induction members generalizing start with
  | nil =>
    cases read
    exact ⟨clean, fun member mem => (by cases mem), fun path => rfl⟩
  | cons member rest ih =>
    rw [List.foldlM_cons] at read
    obtain ⟨files, assigned, read⟩ := Option.bind_eq_some_iff.mp read
    obtain ⟨entry, parsed, rfl⟩ := Option.map_eq_some_iff.mp assigned
    obtain ⟨stays, all, looked⟩ := ih clean.assign read
    refine ⟨stays, ?_, fun path => ?_⟩
    · intro later mem
      rcases List.mem_cons.mp mem with rfl | mem
      · rw [parsed]
        rfl
      · exact all later mem
    · rw [looked, lastWith_cons, Files.lookup_assign]
      cases last : lastWith (fun member => jsName member.1) (path.map .char) rest with
      | some later =>
        have here := all later (List.mem_reverse.mp (List.mem_of_find?_eq_some last))
        obtain ⟨found, parsed⟩ := Option.isSome_iff_exists.mp here
        simp only [Option.some_or, Option.bind_some, parsed]
      | none =>
        by_cases same : jsName member.1 = path.map .char
        · simp only [if_pos same, Option.bind_none, Option.none_or, Option.bind_some, parsed, Option.some_or]
        · simp only [if_neg same, Option.bind_none, Option.or_none, Option.none_or]

/-- What the document has at a path. -/
def fileNamed (doc : Doc) (path : Text) : Option Doc :=
  match doc with
  | .obj members => (rawFiles members).bind fun files => Doc.own files path
  | _ => none

private theorem lookup_empty : Files.lookup {} path = none := by
  unfold Files.lookup
  split <;> rfl

/-- What an accepted manifest has at a path, and what its object inherits. -/
theorem manifest_lookup (accepted : parseManifestText doc = some manifest) :
    manifest.files.Clean ∧ ∀ path,
      manifest.files.lookup path = ((fileNamed doc path).bind fun raw => parseEntry raw.value) ∧
        ((fileNamed doc path).isSome → (manifest.files.lookup path).isSome) := by
  cases doc with
  | obj members =>
    simp only [parseManifestText, Option.bind_eq_bind] at accepted
    obtain ⟨version, -, accepted⟩ := Option.bind_eq_some_iff.mp accepted
    cases version with
    | num literal =>
      dsimp only at accepted
      split at accepted
      · cases accepted
      obtain ⟨raws, found, accepted⟩ := Option.bind_eq_some_iff.mp accepted
      obtain ⟨parsed, read, same⟩ := Option.bind_eq_some_iff.mp accepted
      cases same
      obtain ⟨clean, all, looked⟩ := assigned_all (fun file mem => (by cases mem)) read
      refine ⟨clean, fun path => ?_⟩
      have named : fileNamed (.obj members) path =
          (lastWith (fun member => jsName member.1) (path.map .char) raws).map (·.2) := by
        simp only [fileNamed, found, Option.bind_some, Doc.own]
      have value := looked path
      rw [lastWith_lastOfEach, lookup_empty, Option.or_none] at value
      rw [named, value, Option.bind_map]
      refine ⟨rfl, fun some => ?_⟩
      obtain ⟨member, last⟩ := Option.isSome_iff_exists.mp (Option.isSome_map ▸ some)
      have kept := (lastWith_lastOfEach _ _ _).trans last
      rw [last, Option.bind_some]
      exact all member (List.mem_reverse.mp (List.mem_of_find?_eq_some kept))
    | _ => cases accepted
  | _ => cases accepted

end Dropway.Edge
