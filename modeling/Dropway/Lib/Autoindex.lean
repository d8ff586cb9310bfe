import Dropway.Lib.Hrefs
import Mathlib.Data.List.Induction
import Mathlib.Logic.Relation

/-! Directory listings made from the paths of stored files. Whoever lists each directory that
has no page of its own leads, from the root and by links alone, to just the files that no
such page hides. -/

namespace Dropway.Lib.Uri

/-- The stored paths, and which of their directories are listed. -/
structure Tree where
  stored : Text → Prop
  /-- The segments that requests keep. -/
  kept : Text → Prop
  /-- The file that a directory is answered with. -/
  index : Text
  lists : Prop
  plain : ∀ {segment}, kept segment → segment ≠ [] ∧ segment ≠ ['.'] ∧ segment ≠ ['.', '.'] ∧ '/' ∉ segment
  index_kept : kept index

namespace Tree

variable {tree : Tree} {keeps : Char → Bool} {dir : List Text} {name segment : Text}

def Clean (tree : Tree) (dir : List Text) : Prop := ∀ segment ∈ dir, tree.kept segment

def Listed (tree : Tree) (dir : List Text) : Prop := ¬ tree.stored (dirText dir ++ tree.index) ∧ tree.lists

/-- The links of a directory: to the one it is in, to its files and to its directories. -/
inductive Link (tree : Tree) (keeps : Char → Bool) : List Text → Text → Prop where
  | parent (dir : List Text) (segment : Text) : Link tree keeps (dir ++ [segment]) (keyHref keeps (dirText dir))
  | file (dir : List Text) (name : Text) (named : name ≠ []) (free : '/' ∉ name)
      (stored : tree.stored (dirText dir ++ name)) : Link tree keeps dir (keyHref keeps (dirText dir ++ name))
  | directory (dir : List Text) (segment rest : Text) (free : '/' ∉ segment)
      (stored : tree.stored (dirText dir ++ (segment ++ '/' :: rest))) :
      Link tree keeps dir (keyHref keeps (dirText (dir ++ [segment])))

/-- A segment that looks like a name but bars every request it is part of. -/
structure Barred (tree : Tree) (segment : Text) : Prop where
  nonempty : segment ≠ []
  notDot : segment ≠ ['.']
  notDotDot : segment ≠ ['.', '.']
  slash : '/' ∉ segment
  unkept : ¬ tree.kept segment

/-- A server of the tree: the links it shows at a path, and the file. -/
structure Served (tree : Tree) (keeps : Char → Bool) (blocked : Text → Prop) (links shows : Text → Text → Prop) : Prop where
  escaping : Escaping keeps
  linked : ∀ {dir href}, tree.Clean dir → links (segmentHref keeps (dir ++ [[]])) href →
    tree.Listed dir ∧ tree.Link keeps dir href
  links_all : ∀ {dir href rest}, tree.Clean dir → tree.Listed dir → rest ≠ [] → tree.stored (dirText dir ++ rest) →
    tree.Link keeps dir href → links (segmentHref keeps (dir ++ [[]])) href
  shows_index : ∀ {dir path}, tree.Clean dir →
    (shows (segmentHref keeps (dir ++ [[]])) path ↔ path = dirText dir ++ tree.index ∧ tree.stored path)
  leaf : ∀ {dir name href}, tree.Clean (dir ++ [name]) → tree.stored (dirText dir ++ name) →
    ¬ links (segmentHref keeps (dir ++ [name])) href
  shows_file : ∀ {dir name path}, tree.Clean (dir ++ [name]) → tree.stored (dirText dir ++ name) →
    (shows (segmentHref keeps (dir ++ [name])) path ↔ path = dirText dir ++ name ∧ ¬ blocked path)
  barred_links : ∀ {segments segment href}, segment ∈ segments → tree.Barred segment →
    ¬ links (segmentHref keeps segments) href
  barred_shows : ∀ {segments segment path}, segment ∈ segments → tree.Barred segment →
    ¬ shows (segmentHref keeps segments) path
  index_free : ∀ {dir}, tree.Clean dir → ¬ blocked (dirText dir ++ tree.index)

/-- A link, followed. -/
def Leads (links : Text → Text → Prop) (here there : Text) : Prop := ∃ href, links here href ∧ Opens href there

/-- Where links lead from the root. -/
def Visits (links : Text → Text → Prop) : Text → Prop := Relation.ReflTransGen (Leads links) ['/']

/-- A directory, as the front of a path. -/
def IsDirectory (front : Text) : Prop := front = [] ∨ front.getLast? = some '/'

/-- A file that no directory on the way hides. -/
structure Browsable (tree : Tree) (blocked : Text → Prop) (path : Text) : Prop where
  clean : tree.Clean (path.splitOn '/')
  free : ¬ blocked path
  unhidden : ∀ front, IsDirectory front → front <+: path → tree.stored (front ++ tree.index) →
    front ++ tree.index = path
  lists : path = tree.index ∨ tree.lists

/-! ### Paths and their directories -/

theorem Clean.front (clean : tree.Clean (dir ++ [name])) : tree.Clean dir :=
  fun segment mem => clean segment (List.mem_append_left _ mem)

theorem Clean.last (clean : tree.Clean (dir ++ [name])) : tree.kept name :=
  clean name (List.mem_append_right _ (List.mem_singleton_self _))

theorem Clean.concat (clean : tree.Clean dir) (last : tree.kept name) : tree.Clean (dir ++ [name]) := by
  intro segment mem
  rcases List.mem_append.mp mem with mem | mem
  · exact clean segment mem
  · exact List.mem_singleton.mp mem ▸ last

theorem Clean.free (clean : tree.Clean dir) : ∀ segment ∈ dir, '/' ∉ segment :=
  fun segment mem => (tree.plain (clean segment mem)).2.2.2

theorem Clean.all (clean : tree.Clean dir) :
    ∀ segment ∈ dir, segment ≠ [] ∧ segment ≠ ['.'] ∧ segment ≠ ['.', '.'] ∧ '/' ∉ segment :=
  fun segment mem => tree.plain (clean segment mem)

theorem dirText_ends (dir : List Text) : IsDirectory (dirText dir) := by
  rcases List.eq_nil_or_concat dir with rfl | ⟨front, last, rfl⟩
  · exact .inl rfl
  · rw [List.concat_eq_append, dirText_concat, ← List.append_assoc]
    exact .inr List.getLast?_concat

private theorem prefix_front {above : List Text} (inside : above <+: dir) : dirText above <+: dirText dir ++ name := by
  obtain ⟨more, rfl⟩ := inside
  refine ⟨dirText more ++ name, ?_⟩
  rw [← List.append_assoc, dirText, dirText, dirText, List.flatMap_append]

/-- The directories that a path is in. -/
theorem directory_above {front : Text} (directory : IsDirectory front) (clean : tree.Clean (dir ++ [name]))
    (inside : front <+: dirText dir ++ name) : ∃ above, above <+: dir ∧ front = dirText above := by
  rcases directory with rfl | ends
  · exact ⟨[], List.nil_prefix, rfl⟩
  obtain ⟨inner, rfl⟩ := List.getLast?_eq_some_iff.mp ends
  obtain ⟨rest, whole⟩ := inside
  have parts : inner.splitOn '/' ++ rest.splitOn '/' = dir ++ [name] := by
    rw [← splitOn_concat clean.front.free (tree.plain clean.last).2.2.2, ← whole, List.append_assoc]
    exact (List.splitOn_append_cons_self inner rest).symm
  refine ⟨inner.splitOn '/', ?_, ?_⟩
  · obtain ⟨before, last, split⟩ := (List.eq_nil_or_concat (rest.splitOn '/')).resolve_left (List.splitOn_ne_nil _ _)
    rw [split, List.concat_eq_append, ← List.append_assoc] at parts
    exact ⟨before, (List.append_inj' parts rfl).1⟩
  · obtain ⟨before, last, split⟩ := (List.eq_nil_or_concat (inner.splitOn '/')).resolve_left (List.splitOn_ne_nil _ _)
    have joined : ['/'].intercalate (inner.splitOn '/') = inner := List.intercalate_splitOn '/'
    rw [List.concat_eq_append] at split
    rw [split, intercalate_concat] at joined
    rw [split, dirText_concat, ← List.append_assoc, joined]

private theorem same_file {dir' : List Text} {name' : Text} (clean : tree.Clean (dir ++ [name]))
    (clean' : tree.Clean (dir' ++ [name'])) (same : dirText dir ++ name = dirText dir' ++ name') :
    dir = dir' ∧ name = name' := by
  have split := congrArg (fun text : Text => text.splitOn '/') same
  rw [splitOn_concat clean.front.free (tree.plain clean.last).2.2.2,
    splitOn_concat clean'.front.free (tree.plain clean'.last).2.2.2] at split
  have parts := List.append_inj' split rfl
  exact ⟨parts.1, (List.cons.inj parts.2).1⟩

/-- A path of kept segments is a file in a clean directory. -/
theorem clean_path {path : Text} (clean : tree.Clean (path.splitOn '/')) :
    ∃ dir name, path = dirText dir ++ name ∧ tree.Clean (dir ++ [name]) := by
  obtain ⟨dir, name, split⟩ := (List.eq_nil_or_concat (path.splitOn '/')).resolve_left (List.splitOn_ne_nil _ _)
  have joined : ['/'].intercalate (path.splitOn '/') = path := List.intercalate_splitOn '/'
  rw [List.concat_eq_append] at split
  rw [split, intercalate_concat] at joined
  exact ⟨dir, name, joined.symm, split ▸ clean⟩

/-! ### Where links lead -/

/-- What links lead to: nothing, a directory below listed ones, or a file in one. -/
inductive Spot (tree : Tree) (keeps : Char → Bool) : Text → Prop where
  | nowhere (segments : List Text) (segment : Text) (mem : segment ∈ segments) (barred : tree.Barred segment) :
      Spot tree keeps (segmentHref keeps segments)
  | directory (dir : List Text) (clean : tree.Clean dir)
      (listed : ∀ above, above <+: dir → above ≠ dir → tree.Listed above) : Spot tree keeps (segmentHref keeps (dir ++ [[]]))
  | file (dir : List Text) (name : Text) (clean : tree.Clean (dir ++ [name])) (stored : tree.stored (dirText dir ++ name))
      (listed : ∀ above, above <+: dir → tree.Listed above) : Spot tree keeps (segmentHref keeps (dir ++ [name]))

private theorem climb_cases (dir : List Text) (segment : Text) :
    (segment = ['.', '.'] ∧ climb dir segment = dir.dropLast) ∨ (segment = ['.'] ∧ climb dir segment = dir) ∨
      (segment ≠ ['.'] ∧ segment ≠ ['.', '.'] ∧ climb dir segment = dir ++ [segment]) := by
  unfold climb
  by_cases double : segment = ['.', '.']
  · exact .inl ⟨double, if_pos double⟩
  rw [if_neg double]
  by_cases single : segment = ['.']
  · exact .inr (.inl ⟨single, if_pos single⟩)
  · exact .inr (.inr ⟨single, double, if_neg single⟩)

section Rows

variable (clean : tree.Clean dir) (listed : ∀ above, above <+: dir → tree.Listed above)
include clean listed

private theorem spot_here : tree.Spot keeps (segmentHref keeps (dir ++ [[]])) :=
  .directory dir clean fun above inside _ => listed above inside

private theorem spot_above : tree.Spot keeps (segmentHref keeps (dir.dropLast ++ [[]])) :=
  .directory dir.dropLast (fun segment mem => clean segment (List.dropLast_subset dir mem))
    fun above inside _ => listed above (inside.trans (List.dropLast_prefix dir))

private theorem directory_row_spot (free : '/' ∉ segment) :
    tree.Spot keeps (segmentHref keeps (descend dir segment ++ [[]])) := by
  by_cases empty : segment = []
  · rw [descend, if_pos empty]
    exact spot_here clean listed
  rw [descend, if_neg empty]
  rcases climb_cases dir segment with ⟨-, up⟩ | ⟨-, same⟩ | ⟨notDot, notDotDot, down⟩
  · rw [up]
    exact spot_above clean listed
  · rw [same]
    exact spot_here clean listed
  · rw [down]
    by_cases kept : tree.kept segment
    · refine .directory _ (clean.concat kept) fun above inside apart => ?_
      exact listed above ((List.prefix_concat_iff.mp inside).resolve_left apart)
    · exact .nowhere _ segment (List.mem_append_left _ (List.mem_append_right _ (List.mem_singleton_self _)))
        ⟨empty, notDot, notDotDot, free, kept⟩

private theorem file_row_spot (free : '/' ∉ name) (named : name ≠ []) (stored : tree.stored (dirText dir ++ name)) :
    tree.Spot keeps (segmentHref keeps (descendFile dir name)) := by
  rcases climb_cases dir name with ⟨double, up⟩ | ⟨single, same⟩ | ⟨notDot, notDotDot, -⟩
  · rw [descendFile, if_pos (.inl double), up]
    exact spot_above clean listed
  · rw [descendFile, if_pos (.inr single), same]
    exact spot_here clean listed
  · rw [descendFile, if_neg (not_or.mpr ⟨notDotDot, notDot⟩)]
    by_cases kept : tree.kept name
    · exact .file dir name (clean.concat kept) stored listed
    · exact .nowhere _ name (List.mem_append_right _ (List.mem_singleton_self _)) ⟨named, notDot, notDotDot, free, kept⟩

end Rows

variable {blocked : Text → Prop} {links shows : Text → Text → Prop}

theorem Spot.leads (served : tree.Served keeps blocked links shows) {here there : Text} (spot : tree.Spot keeps here)
    (leads : Leads links here there) : tree.Spot keeps there := by
  obtain ⟨href, link, opens⟩ := leads
  cases spot with
  | nowhere segments segment mem barred => exact absurd link (served.barred_links mem barred)
  | file dir name clean stored listed => exact absurd link (served.leaf clean stored)
  | directory dir clean listed =>
    obtain ⟨here, row⟩ := served.linked clean link
    have all : ∀ above, above <+: dir → tree.Listed above := by
      intro above inside
      by_cases whole : above = dir
      · exact whole ▸ here
      · exact listed above inside whole
    cases row with
    | parent front segment =>
      rw [root_opens served.escaping clean.front.all] at opens
      rw [opens]
      exact spot_here clean.front fun above inside => all above (inside.trans (List.prefix_append ..))
    | file _ name named free stored =>
      rw [file_opens served.escaping clean.all free named] at opens
      rw [opens]
      exact file_row_spot clean all free named stored
    | directory _ segment rest free stored =>
      rw [directory_opens served.escaping clean.all free] at opens
      rw [opens]
      exact directory_row_spot clean all free

/-- Links from the root lead to nothing else. -/
theorem Served.spot (served : tree.Served keeps blocked links shows) {there : Text} (visits : Visits links there) :
    tree.Spot keeps there := by
  induction visits with
  | refl =>
    refine .directory [] (fun _ mem => (by cases mem)) fun above inside apart => ?_
    exact absurd (List.prefix_nil.mp inside) apart
  | tail _ leads spot => exact spot.leads served leads

/-! ### What links lead to -/

/-- Every directory with a file below it is visited if those it is in are listed. -/
theorem Served.visits_directory (served : tree.Served keeps blocked links shows) (clean : tree.Clean dir) {rest : Text}
    (stored : tree.stored (dirText dir ++ rest))
    (listed : ∀ above, above <+: dir → above ≠ dir → tree.Listed above) :
    Visits links (segmentHref keeps (dir ++ [[]])) := by
  induction dir using List.reverseRecOn generalizing rest with
  | nil => exact .refl
  | append_singleton front last ih =>
    have proper (above : List Text) (inside : above <+: front) : tree.Listed above := by
      refine listed above (inside.trans (List.prefix_append ..)) ?_
      rintro rfl
      have short := inside.length_le
      simp only [List.length_append, List.length_singleton] at short
      omega
    have final := tree.plain clean.last
    rw [dirText_concat, List.append_assoc, List.append_assoc, List.singleton_append] at stored
    have before := ih clean.front stored fun above inside _ => proper above inside
    have link := served.links_all clean.front (proper front List.prefix_rfl)
      (List.append_ne_nil_of_right_ne_nil _ (List.cons_ne_nil _ _)) stored (.directory front last rest final.2.2.2 stored)
    refine before.tail ⟨_, link, ?_⟩
    rw [directory_opens served.escaping clean.front.all final.2.2.2, descend, if_neg final.1, climb, if_neg final.2.2.1,
      if_neg final.2.1]

/-- A file is visited if the directories it is in are listed. -/
theorem Served.visits_file (served : tree.Served keeps blocked links shows) (clean : tree.Clean (dir ++ [name]))
    (stored : tree.stored (dirText dir ++ name)) (listed : ∀ above, above <+: dir → tree.Listed above) :
    Visits links (segmentHref keeps (dir ++ [name])) := by
  have final := tree.plain clean.last
  have before : Visits links (segmentHref keeps (dir ++ [[]])) :=
    served.visits_directory clean.front stored fun above inside _ => listed above inside
  have link := served.links_all clean.front (listed dir List.prefix_rfl) final.1 stored
    (.file dir name final.1 final.2.2.2 stored)
  refine before.tail ⟨_, link, ?_⟩
  rw [file_opens served.escaping clean.front.all final.2.2.2 final.1, descendFile,
    if_neg (not_or.mpr ⟨final.2.2.1, final.2.1⟩)]

/-! ### The files that are found -/

/-- On the way to a browsable file everything is listed, save that it may be the index of its own directory. -/
private theorem Browsable.listed (browsable : tree.Browsable blocked (dirText dir ++ name))
    (clean : tree.Clean (dir ++ [name])) {above : List Text} (inside : above <+: dir)
    (apart : name = tree.index → above ≠ dir) : tree.Listed above := by
  have indexed {front : List Text} (clean : tree.Clean front) : tree.Clean (front ++ [tree.index]) :=
    clean.concat tree.index_kept
  constructor
  · intro index
    have same := browsable.unhidden _ (dirText_ends above) (prefix_front inside) index
    have clean' : tree.Clean above := fun segment mem => clean.front segment (inside.subset mem)
    obtain ⟨whole, named⟩ := same_file (indexed clean') clean same
    exact apart named.symm whole
  · refine browsable.lists.resolve_left fun same => ?_
    have root : dirText dir ++ name = dirText [] ++ tree.index := same
    obtain ⟨rfl, index⟩ := same_file clean (indexed fun _ mem => (by cases mem)) root
    exact apart index (List.prefix_nil.mp inside)

private theorem browsable_index (served : tree.Served keeps blocked links shows) (clean : tree.Clean dir)
    (listed : ∀ above, above <+: dir → above ≠ dir → tree.Listed above) :
    tree.Browsable blocked (dirText dir ++ tree.index) where
  clean := by
    rw [splitOn_concat clean.free (tree.plain tree.index_kept).2.2.2]
    exact clean.concat tree.index_kept
  free := served.index_free clean
  unhidden := by
    intro front directory inside stored
    obtain ⟨above, within, rfl⟩ := directory_above directory (clean.concat tree.index_kept) inside
    by_cases whole : above = dir
    · rw [whole]
    · exact absurd stored (listed above within whole).1
  lists := by
    by_cases root : [] = dir
    · subst root
      exact .inl rfl
    · exact .inr (listed [] List.nil_prefix root).2

/-- Whether a file is browsable depends only on it and the files that answer for directories. -/
theorem browsable_congr {tree' : Tree} {blocked' : Text → Prop} {path : Text}
    (kept : ∀ segment, tree.kept segment ↔ tree'.kept segment) (index : tree.index = tree'.index)
    (free : blocked path ↔ blocked' path)
    (stored : ∀ front, tree.stored (front ++ tree.index) ↔ tree'.stored (front ++ tree.index))
    (lists : tree.lists ↔ tree'.lists) : tree.Browsable blocked path ↔ tree'.Browsable blocked' path := by
  constructor
  · intro browsable
    refine ⟨fun segment mem => (kept segment).mp (browsable.clean segment mem), mt free.mpr browsable.free, ?_, ?_⟩
    · intro front directory inside here
      rw [← index] at here ⊢
      exact browsable.unhidden front directory inside ((stored front).mpr here)
    · rw [← index]
      exact browsable.lists.imp_right lists.mp
  · intro browsable
    refine ⟨fun segment mem => (kept segment).mpr (browsable.clean segment mem), mt free.mp browsable.free, ?_, ?_⟩
    · intro front directory inside here
      rw [index] at here ⊢
      exact browsable.unhidden front directory inside (index ▸ (stored front).mp (index ▸ here))
    · rw [index]
      exact browsable.lists.imp_right lists.mpr

/-- Links from the root lead to a stored file exactly where nothing on the way hides it. -/
theorem Served.found_iff (served : tree.Served keeps blocked links shows) {path : Text} (stored : tree.stored path) :
    (∃ pathname, Visits links pathname ∧ shows pathname path) ↔ tree.Browsable blocked path := by
  constructor
  · rintro ⟨pathname, visits, shown⟩
    cases served.spot visits with
    | nowhere segments segment mem barred => exact absurd shown (served.barred_shows mem barred)
    | directory dir clean listed =>
      obtain ⟨rfl, -⟩ := (served.shows_index clean).mp shown
      exact browsable_index served clean listed
    | file dir name clean stored' listed =>
      obtain ⟨rfl, free⟩ := (served.shows_file clean stored').mp shown
      refine ⟨?_, free, fun front directory inside index => ?_, .inr (listed [] List.nil_prefix).2⟩
      · rw [splitOn_concat clean.front.free (tree.plain clean.last).2.2.2]
        exact clean
      · obtain ⟨above, within, rfl⟩ := directory_above directory clean inside
        exact absurd index (listed above within).1
  · intro browsable
    obtain ⟨dir, name, rfl, clean⟩ := clean_path browsable.clean
    by_cases index : name = tree.index
    · subst index
      refine ⟨_, served.visits_directory clean.front stored fun above inside apart =>
        browsable.listed clean inside fun _ => apart, (served.shows_index clean.front).mpr ⟨rfl, stored⟩⟩
    · refine ⟨_, served.visits_file clean stored fun above inside =>
        browsable.listed clean inside fun same => absurd same index, (served.shows_file clean stored).mpr ⟨rfl, browsable.free⟩⟩

end Tree

end Dropway.Lib.Uri
