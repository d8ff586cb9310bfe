import Dropway.Api.Folders

/-! Replacing the folders of a skill. The old memberships are gone before the
new ones are counted, so a folder that keeps the skill is tested as if it were
new to it. -/

namespace Dropway.Api
open Lib Lib.Outcome

namespace SkillFolders

variable {state : SkillFolders} {folderId skillId : Text}

def Known (state : SkillFolders) (folderId : Text) : Prop := (state.folders.get? folderId).isSome = true

def Holds (state : SkillFolders) (folderId skillId : Text) : Prop :=
  (state.items.get? (folderId, skillId)).isSome = true

instance : Decidable (state.Known folderId) := inferInstanceAs (Decidable (_ = _))

instance : Decidable (state.Holds folderId skillId) := inferInstanceAs (Decidable (_ = _))

/-- The flag of a membership, false without one. -/
def flag (state : SkillFolders) (folderId skillId : Text) : Bool :=
  ((state.items.get? (folderId, skillId)).map FolderItem.isPreset).getD false

/-- The memberships of the other skills. -/
def foreign (state : SkillFolders) (skillId : Text) : List FolderItem :=
  state.items.rows.filter fun item => decide (item.skillId ≠ skillId)

def rivals (state : SkillFolders) (folderId skillId : Text) : Nat :=
  ((state.foreign skillId).filter fun item => decide (item.folderId = folderId)).length

/-! ### What the queries answer -/

private theorem ref_mem {ref : SkillFolderRef} : ref ∈ state.listFoldersForSkills skillId ↔
    ∃ item folder, state.items.get? (ref.folderId, skillId) = some item ∧
      state.folders.get? ref.folderId = some folder ∧
      ref = ⟨folder.id, folder.slug, folder.title, item.isPreset⟩ := by
  unfold listFoldersForSkills
  rw [List.mem_filterMap]
  constructor
  · intro listed
    obtain ⟨item, chosen, joined⟩ := listed
    obtain ⟨folder, found, rfl⟩ := Option.map_eq_some_iff.mp joined
    obtain ⟨mem, own⟩ := Table.mem_filter.mp chosen
    have id := Table.get?_key found
    refine ⟨item, folder, ?_, id ▸ found, rfl⟩
    exact Table.get?_eq_some.mpr ⟨mem, Prod.ext id.symm (of_decide_eq_true own)⟩
  · intro joined
    obtain ⟨item, folder, present, found, same⟩ := joined
    obtain ⟨mem, keyed⟩ := Table.get?_eq_some.mp present
    obtain ⟨house, own⟩ := Prod.mk.inj keyed
    refine ⟨item, Table.mem_filter.mpr ⟨mem, decide_eq_true own⟩, ?_⟩
    rw [house, found, same]
    rfl

private theorem ref_of_item {item : FolderItem} (present : state.items.get? (folderId, skillId) = some item) :
    ∃ ref ∈ state.listFoldersForSkills skillId, ref.folderId = folderId ∧ ref.isPreset = item.isPreset := by
  obtain ⟨mem, keyed⟩ := Table.get?_eq_some.mp present
  obtain ⟨house, -⟩ := Prod.mk.inj keyed
  obtain ⟨folder, found⟩ := Option.isSome_iff_exists.mp (state.housed item mem).1
  rw [house] at found
  have id : folder.id = folderId := Table.get?_key found
  refine ⟨⟨folder.id, folder.slug, folder.title, item.isPreset⟩, ref_mem.mpr ⟨item, folder, ?_, ?_, rfl⟩, id, rfl⟩
  · rw [id]
    exact present
  · rw [id]
    exact found

private theorem isFolderMember_iff : state.isFolderMember folderId skillId = true ↔ state.Holds folderId skillId := by
  unfold isFolderMember Holds
  rw [List.any_eq_true, Option.isSome_iff_exists]
  constructor
  · intro listed
    obtain ⟨ref, mem, same⟩ := listed
    obtain ⟨item, -, present, -⟩ := ref_mem.mp mem
    rw [of_decide_eq_true same] at present
    exact ⟨item, present⟩
  · intro held
    obtain ⟨item, present⟩ := held
    obtain ⟨ref, mem, same, -⟩ := ref_of_item present
    exact ⟨ref, mem, decide_eq_true same⟩

/-- The map of the existing flags is right for every folder. -/
private theorem presetOf_list : presetOf (state.listFoldersForSkills skillId) folderId = state.flag folderId skillId := by
  unfold presetOf flag
  cases present : state.items.get? (folderId, skillId) with
  | none =>
    cases found : (ofEntries ((state.listFoldersForSkills skillId).map fun ref => (ref.folderId, ref.isPreset))).lookup
        folderId with
    | none => rfl
    | some isPreset =>
      obtain ⟨ref, mem, same⟩ := List.mem_map.mp (mem_of_lookup_ofEntries found)
      obtain ⟨house, -⟩ := Prod.mk.inj same
      obtain ⟨item, -, there, -⟩ := ref_mem.mp mem
      rw [house, present] at there
      cases there
  | some item =>
    obtain ⟨ref, mem, house, preset⟩ := ref_of_item present
    have entry : (folderId, item.isPreset) ∈
        (state.listFoldersForSkills skillId).map fun ref => (ref.folderId, ref.isPreset) :=
      List.mem_map.mpr ⟨ref, mem, Prod.ext house preset⟩
    obtain ⟨last, found, lastEntry⟩ := exists_lookup_ofEntries entry
    obtain ⟨other, otherMem, same⟩ := List.mem_map.mp lastEntry
    obtain ⟨otherHouse, otherPreset⟩ := Prod.mk.inj same
    obtain ⟨otherItem, _, otherPresent, -, shape⟩ := ref_mem.mp otherMem
    rw [otherHouse, present] at otherPresent
    cases otherPresent
    have flagged : other.isPreset = item.isPreset := congrArg SkillFolderRef.isPreset shape
    rw [found, ← otherPreset, flagged]
    rfl

/-- A folder holds the other skills, and this one when it is a member. -/
theorem countFolderItems_eq (state : SkillFolders) (folderId skillId : Text) :
    state.countFolderItems folderId =
      state.rivals folderId skillId + if state.Holds folderId skillId then 1 else 0 := by
  unfold countFolderItems rivals foreign Table.filter
  have own : (state.items.rows.filter fun item => decide (item.key = (folderId, skillId))).length =
      if state.Holds folderId skillId then 1 else 0 := by
    rw [Table.filter_key]
    by_cases held : state.Holds folderId skillId
    · obtain ⟨item, present⟩ := Option.isSome_iff_exists.mp held
      rw [if_pos held, present, Option.toList_some, List.length_singleton]
    · rw [if_neg held, Option.not_isSome_iff_eq_none.mp held, Option.toList_none, List.length_nil]
  rw [← own]
  induction state.items.rows with
  | nil => rfl
  | cons item rest ih =>
    simp only [ne_eq] at ih
    have keyed : item.key = (folderId, skillId) ↔ item.folderId = folderId ∧ item.skillId = skillId := Prod.mk_inj
    by_cases house : item.folderId = folderId <;> by_cases own : item.skillId = skillId <;>
      simp only [List.filter_cons, keyed, house, own, ne_eq, not_true, not_false_eq_true, decide_true, decide_false,
        Bool.false_eq_true, if_true, if_false, and_true, and_false, List.length_cons] <;> omega

/-! ### The loop -/

/-- The folders gone through hold the skill, with the flags of before. -/
structure Filled (before : SkillFolders) (skillId : Text) (gone : List Text) (current : SkillFolders) : Prop where
  planTier : current.planTier = before.planTier
  skills : current.skills = before.skills
  folders : current.folders = before.folders
  foreign : current.foreign skillId = before.foreign skillId
  own : ∀ folderId, (current.items.get? (folderId, skillId)).map FolderItem.isPreset =
    if folderId ∈ gone then some (before.flag folderId skillId) else none

variable {before current : SkillFolders} {gone : List Text}

namespace Filled

theorem holds_iff (filled : Filled before skillId gone current) : current.Holds folderId skillId ↔ folderId ∈ gone := by
  have own := filled.own folderId
  unfold Holds
  rw [← Option.isSome_map (f := FolderItem.isPreset), own]
  by_cases mem : folderId ∈ gone
  · rw [if_pos mem]
    exact iff_of_true rfl mem
  · rw [if_neg mem]
    exact iff_of_false Bool.false_ne_true mem

theorem rivals_eq (filled : Filled before skillId gone current) :
    current.rivals folderId skillId = before.rivals folderId skillId := by
  unfold rivals
  rw [filled.foreign]

theorem known_iff (filled : Filled before skillId gone current) : current.Known folderId ↔ before.Known folderId := by
  unfold Known
  rw [filled.folders]

end Filled

private theorem cleared_filled (before : SkillFolders) (skillId : Text) :
    Filled before skillId [] (before.deleteSkillFolderItemsForSkill skillId) := by
  refine ⟨rfl, rfl, rfl, ?_, fun folderId => ?_⟩
  · have twice : (before.items.rows.filter fun item => !decide (item.skillId = skillId)).filter
        (fun item => decide (item.skillId ≠ skillId)) =
          before.items.rows.filter fun item => decide (item.skillId ≠ skillId) := by
      rw [List.filter_filter]
      apply List.filter_congr
      intro item _
      by_cases own : item.skillId = skillId <;> simp [own]
    exact twice
  · have none : (before.items.delete fun item => decide (item.skillId = skillId)).get? (folderId, skillId) = none := by
      rw [Table.get?_eq_none]
      intro item mem keyed
      obtain ⟨-, kept⟩ := Table.mem_delete.mp mem
      exact of_decide_eq_false kept (Prod.mk.inj keyed).2
    change ((before.items.delete fun item => decide (item.skillId = skillId)).get? (folderId, skillId)).map _ = _
    rw [none, if_neg List.not_mem_nil]
    rfl

private theorem upsert_filled (userId : Text) (filled : Filled before skillId gone current)
    (known : before.Known folderId) (skill : (before.skills.get? skillId).isSome = true) :
    ∃ next, current.upsertSkillFolderItem ⟨folderId, skillId, before.flag folderId skillId, userId⟩ = .ok next ∧
      Filled before skillId (gone ++ [folderId]) next := by
  have folder : (current.folders.get? folderId).isSome = true := filled.known_iff.mpr known
  rw [← filled.skills] at skill
  unfold upsertSkillFolderItem
  rw [dif_pos folder, dif_pos skill]
  refine ⟨_, rfl, filled.planTier, filled.skills, filled.folders, ?_, fun other => ?_⟩
  · have apart : (fun key : Text × Text => decide (key.2 ≠ skillId))
        (FolderItem.key ⟨folderId, skillId, before.flag folderId skillId, userId⟩) = false :=
      decide_eq_false (fun differ => differ rfl)
    rw [← filled.foreign]
    unfold foreign
    exact Table.filter_upsert (p := fun key : Text × Text => decide (key.2 ≠ skillId)) apart
  · have own := filled.own other
    rw [Table.get?_upsert]
    by_cases same : folderId = other
    · subst same
      have keyed : FolderItem.key ⟨folderId, skillId, before.flag folderId skillId, userId⟩ = (folderId, skillId) := rfl
      rw [if_pos keyed, if_pos (List.mem_append_right _ (List.mem_singleton_self _)), Option.map_some]
      cases current.items.get? (folderId, skillId) <;> rfl
    · have elsewhere : FolderItem.key ⟨folderId, skillId, before.flag folderId skillId, userId⟩ ≠ (other, skillId) :=
        fun keyed => same (Prod.mk.inj keyed).1
      have still : other ∈ gone ++ [folderId] ↔ other ∈ gone := by
        rw [List.mem_append, List.mem_singleton, or_iff_left (Ne.symm same)]
      rw [if_neg elsewhere, own]
      simp only [still]

/-- A folder that may take the skill, the ones gone through counting as taken. -/
def Fits (before : SkillFolders) (skillId : Text) (gone : List Text) (folderId : Text) : Prop :=
  before.Known folderId ∧
    (folderId ∈ gone ∨ ¬ Cloud.FolderFull before.getPlanTier (before.rivals folderId skillId))

section Step

variable (userId : Text) {isPreset : Bool}

private theorem add_unknown (filled : Filled before skillId gone current) (unknown : ¬ before.Known folderId) :
    current.addFolderItemTx userId before.getPlanTier folderId skillId isPreset = .error .folderNotFound := by
  have missing : current.folders.get? folderId = none :=
    Option.not_isSome_iff_eq_none.mp fun known => unknown (filled.known_iff.mp known)
  unfold addFolderItemTx
  rw [missing]
  rfl

private theorem add_known (filled : Filled before skillId gone current) (known : before.Known folderId) :
    current.addFolderItemTx userId before.getPlanTier folderId skillId isPreset =
      if folderId ∈ gone then current.upsertSkillFolderItem ⟨folderId, skillId, isPreset, userId⟩
      else (Cloud.allowSkillPerFolder before.getPlanTier (before.rivals folderId skillId)).mapError .exceeded >>=
        fun _ => current.upsertSkillFolderItem ⟨folderId, skillId, isPreset, userId⟩ := by
  obtain ⟨folder, found⟩ := Option.isSome_iff_exists.mp (filled.known_iff.mpr known)
  unfold addFolderItemTx
  rw [found]
  by_cases mem : folderId ∈ gone
  · have member := isFolderMember_iff.mpr (filled.holds_iff.mpr mem)
    rw [if_pos mem, if_pos member]
    rfl
  · have absent := fun held => mem (filled.holds_iff.mp held)
    have member : ¬ current.isFolderMember folderId skillId = true := fun listed => absent (isFolderMember_iff.mp listed)
    have count := countFolderItems_eq current folderId skillId
    rw [if_neg absent, filled.rivals_eq] at count
    rw [if_neg mem, if_neg member, count]
    rfl

private theorem add_fits (filled : Filled before skillId gone current) (fits : before.Fits skillId gone folderId)
    (skill : (before.skills.get? skillId).isSome = true) :
    ∃ next, current.addFolderItemTx userId before.getPlanTier folderId skillId (before.flag folderId skillId) = .ok next ∧
      Filled before skillId (gone ++ [folderId]) next := by
  obtain ⟨known, room⟩ := fits
  obtain ⟨next, put, after⟩ := upsert_filled userId filled known skill
  refine ⟨next, ?_, after⟩
  rw [add_known userId filled known]
  by_cases mem : folderId ∈ gone
  · rw [if_pos mem]
    exact put
  · rw [if_neg mem, Cloud.allowSkillPerFolder_ok.mpr (room.resolve_left mem)]
    exact put

private theorem add_full (filled : Filled before skillId gone current) (known : before.Known folderId)
    (full : ¬ before.Fits skillId gone folderId) :
    Cloud.FolderFull before.getPlanTier (before.rivals folderId skillId) ∧
      ∃ error, current.addFolderItemTx userId before.getPlanTier folderId skillId isPreset = .error (.exceeded error) := by
  obtain ⟨new, blocked⟩ := not_or.mp fun room => full ⟨known, room⟩
  refine ⟨not_not.mp blocked, ?_⟩
  rw [add_known userId filled known, if_neg new]
  cases allowed : Cloud.allowSkillPerFolder before.getPlanTier (before.rivals folderId skillId) with
  | ok _ => exact absurd (Cloud.allowSkillPerFolder_ok.mp allowed) blocked
  | error error => exact ⟨error, rfl⟩

end Step

/-- How the loop ends: every folder fits, or it stops at the first that does not. -/
inductive Ends (before : SkillFolders) (skillId : Text) (gone ids : List Text) :
    Except FolderError SkillFolders → Prop
  | filled (after : SkillFolders) (fits : ∀ id ∈ ids, before.Fits skillId gone id)
      (all : Filled before skillId (gone ++ ids) after) : Ends before skillId gone ids (.ok after)
  | unknown (first : List Text) (id : Text) (rest : List Text) (here : ids = first ++ id :: rest)
      (fits : ∀ id ∈ first, before.Fits skillId gone id) (unknown : ¬ before.Known id) :
      Ends before skillId gone ids (.error .folderNotFound)
  | full (first : List Text) (id : Text) (rest : List Text) (here : ids = first ++ id :: rest)
      (fits : ∀ id ∈ first, before.Fits skillId gone id) (known : before.Known id)
      (full : Cloud.FolderFull before.getPlanTier (before.rivals id skillId)) (error : Cloud.ExceededError) :
      Ends before skillId gone ids (.error (.exceeded error))

private theorem fits_of_next {id : Text} (here : before.Fits skillId gone folderId)
    (later : before.Fits skillId (gone ++ [folderId]) id) : before.Fits skillId gone id := by
  obtain ⟨known, room⟩ := later
  refine ⟨known, ?_⟩
  rcases room with mem | free
  · rcases List.mem_append.mp mem with old | new
    · exact Or.inl old
    · rw [List.mem_singleton.mp new]
      exact here.2
  · exact Or.inr free

private theorem Ends.cons {ids : List Text} {result : Except FolderError SkillFolders}
    (here : before.Fits skillId gone folderId) (ends : Ends before skillId (gone ++ [folderId]) ids result) :
    Ends before skillId gone (folderId :: ids) result := by
  have also {first : List Text} (fits : ∀ id ∈ first, before.Fits skillId (gone ++ [folderId]) id) :
      ∀ id ∈ folderId :: first, before.Fits skillId gone id :=
    List.forall_mem_cons.mpr ⟨here, fun id mem => fits_of_next here (fits id mem)⟩
  cases ends with
  | filled after fits all =>
    rw [List.append_assoc] at all
    exact .filled after (also fits) all
  | unknown first id rest split fits unknown =>
    exact .unknown (folderId :: first) id rest (congrArg (folderId :: ·) split) (also fits) unknown
  | full first id rest split fits known full error =>
    exact .full (folderId :: first) id rest (congrArg (folderId :: ·) split) (also fits) known full error

private theorem loop_ends (userId : Text) (ids : List Text) (filled : Filled before skillId gone current)
    (skill : (before.skills.get? skillId).isSome = true) :
    Ends before skillId gone ids (ids.foldlM (fun current folderId => current.addFolderItemTx userId
      before.getPlanTier folderId skillId (before.flag folderId skillId)) current) := by
  induction ids generalizing gone current with
  | nil =>
    refine .filled current (fun _ mem => absurd mem List.not_mem_nil) ?_
    rw [List.append_nil]
    exact filled
  | cons folderId rest ih =>
    rw [List.foldlM_cons]
    by_cases known : before.Known folderId
    · by_cases fits : before.Fits skillId gone folderId
      · obtain ⟨next, added, after⟩ := add_fits userId filled fits skill
        rw [added]
        exact (ih after).cons fits
      · obtain ⟨full, error, failed⟩ := add_full userId filled known fits
        rw [failed]
        exact .full [] folderId rest rfl (fun _ mem => absurd mem List.not_mem_nil) known full error
    · rw [add_unknown userId filled known]
      exact .unknown [] folderId rest rfl (fun _ mem => absurd mem List.not_mem_nil) known

/-! ### The request -/

/-- The memberships of the skill are the given folders, and nothing else has changed. -/
structure Replaced (before : SkillFolders) (skillId : Text) (ids : List Text) (after : SkillFolders) : Prop where
  own : ∀ folderId isPreset, (∃ item ∈ after.items.rows, item.folderId = folderId ∧ item.skillId = skillId ∧
    item.isPreset = isPreset) ↔ folderId ∈ ids ∧ isPreset = before.flag folderId skillId
  others : ∀ item, item.skillId ≠ skillId → (item ∈ after.items.rows ↔ item ∈ before.items.rows)

/-- A quota error is for a folder that was full without the skill; a missing folder is told;
a failure changes nothing; a success replaces the memberships. -/
structure Exact (before : SkillFolders) (skillId : Text) (ids : List Text) {α : Type}
    (result : Except FolderError α × SkillFolders) : Prop where
  exceeded : ∀ error, result.1 = .error (.exceeded error) →
    ∃ id ∈ ids, ¬ before.Holds id skillId ∧ Cloud.FolderFull before.getPlanTier (before.countFolderItems id)
  unknown : result.1 = .error .folderNotFound ↔
    (∃ id ∈ ids, ¬ before.Known id) ∧ ∀ error, result.1 ≠ .error (.exceeded error)
  failed : ∀ error, result.1 = .error error → result.2 = before
  replaced : ∀ answer, result.1 = .ok answer → Replaced before skillId ids result.2

/-- A folder that keeps the skill has more than its cap, with only known folders before it in
the list, and no folder that would be new to the skill is full. -/
def Penalised (before : SkillFolders) (skillId : Text) (ids : List Text) : Prop :=
  (∃ id ∈ ids.takeWhile fun id => decide (before.Known id), before.Holds id skillId ∧
    Cloud.FolderFull before.getPlanTier ((before.countFolderItems id : Int) - 1)) ∧
  ∀ id ∈ ids, ¬ before.Holds id skillId → ¬ Cloud.FolderFull before.getPlanTier (before.countFolderItems id)

theorem Filled.replaced {ids : List Text} {after : SkillFolders} (filled : Filled before skillId ids after) :
    Replaced before skillId ids after := by
  refine ⟨fun folderId isPreset => ?_, fun item other => ?_⟩
  · have own := filled.own folderId
    constructor
    · intro listed
      obtain ⟨item, mem, house, skill, preset⟩ := listed
      have keyed : item.key = (folderId, skillId) := Prod.ext house skill
      have present := Table.get?_eq_some.mpr ⟨mem, keyed⟩
      rw [present, Option.map_some, preset] at own
      split at own
      · rename_i inside
        exact ⟨inside, Option.some.inj own⟩
      · cases own
    · intro listed
      obtain ⟨inside, preset⟩ := listed
      rw [if_pos inside, ← preset] at own
      obtain ⟨item, present, flagged⟩ := Option.map_eq_some_iff.mp own
      obtain ⟨mem, keyed⟩ := Table.get?_eq_some.mp present
      obtain ⟨house, skill⟩ := Prod.mk.inj keyed
      exact ⟨item, mem, house, skill, flagged⟩
  · have inside {state : SkillFolders} : item ∈ state.foreign skillId ↔ item ∈ state.items.rows := by
      unfold SkillFolders.foreign
      rw [List.mem_filter, and_iff_left (decide_eq_true other)]
    rw [← inside, filled.foreign, inside]

/-- What the request answers follows the end of its loop. -/
private theorem setSkillFolders_ends (before : SkillFolders) (userId : Text) (ids : List Text)
    (skill : (before.skills.get? skillId).isSome = true) : ∃ result, Ends before skillId [] ids result ∧
      (∀ error, result = .error error → before.setSkillFolders userId skillId ids = (.error error, before)) ∧
      (∀ after, result = .ok after → ∃ answer, before.setSkillFolders userId skillId ids = (.ok answer, after)) := by
  obtain ⟨row, found⟩ := Option.isSome_iff_exists.mp skill
  have ends := loop_ends userId ids (cleared_filled before skillId) skill
  refine ⟨_, ends, fun error failed => ?_, fun after done => ?_⟩
  · simp only [setSkillFolders, setSkillFoldersTx, found, orFail, presetOf_list, bind, Except.bind] at failed ⊢
    rw [failed]
    rfl
  · simp only [setSkillFolders, setSkillFoldersTx, found, orFail, presetOf_list, bind, Except.bind] at done ⊢
    rw [done]
    exact ⟨_, rfl⟩

private theorem full_without {id : Text} (held : before.Holds id skillId) :
    (before.rivals id skillId : Int) = (before.countFolderItems id : Int) - 1 := by
  have count := countFolderItems_eq before id skillId
  rw [if_pos held] at count
  omega

private theorem full_new {id : Text} (new : ¬ before.Holds id skillId) :
    before.rivals id skillId = before.countFolderItems id := by
  rw [countFolderItems_eq before id skillId, if_neg new, Nat.add_zero]

private theorem takeWhile_known {first rest : List Text} {id : Text} (known : ∀ id ∈ first, before.Known id)
    (unknown : ¬ before.Known id) :
    (first ++ id :: rest).takeWhile (fun id => decide (before.Known id)) = first := by
  rw [List.takeWhile_append_of_pos fun id mem => decide_eq_true (known id mem),
    List.takeWhile_cons, if_neg fun holds => unknown (of_decide_eq_true holds), List.append_nil]

/-- The loop meets a folder that is too full before one that is missing. -/
private theorem penalised_exceeds {ids : List Text} {result : Except FolderError SkillFolders}
    (ends : Ends before skillId [] ids result) (penalised : before.Penalised skillId ids) :
    ∃ error, result = .error (.exceeded error) := by
  obtain ⟨⟨id, mem, held, full⟩, -⟩ := penalised
  rw [← full_without held] at full
  have blocked : ¬ before.Fits skillId [] id := fun fits => fits.2.resolve_left List.not_mem_nil full
  cases ends with
  | filled after fits _ => exact absurd (fits id ((List.takeWhile_sublist _).mem mem)) blocked
  | unknown first missing rest here fits unknown =>
    rw [here, takeWhile_known (fun id inside => (fits id inside).1) unknown] at mem
    exact absurd (fits id mem) blocked
  | full _ _ _ _ _ _ _ error => exact ⟨error, rfl⟩

/-- The request does what it says unless a kept folder holds more than its cap. -/
theorem set_folders_exact {userId : Text} {ids : List Text} (skill : (before.skills.get? skillId).isSome = true) :
    Exact before skillId ids (before.setSkillFolders userId skillId ids) ↔ ¬ before.Penalised skillId ids := by
  obtain ⟨result, ends, failing, done⟩ := setSkillFolders_ends before userId ids skill
  constructor
  · intro right penalised
    obtain ⟨error, exceeded⟩ := penalised_exceeds ends penalised
    have answer : (before.setSkillFolders userId skillId ids).1 = .error (.exceeded error) := by
      rw [failing _ exceeded]
    obtain ⟨id, mem, new, full⟩ := right.exceeded error answer
    exact penalised.2 id mem new full
  · intro fair
    cases ends with
    | filled after fits all =>
      obtain ⟨answer, answered⟩ := done after rfl
      rw [answered]
      refine ⟨fun _ stopped => (by cases stopped), ?_, fun _ stopped => (by cases stopped), fun _ _ => all.replaced⟩
      refine iff_of_false (fun stopped => by cases stopped) ?_
      intro missing
      obtain ⟨⟨id, mem, unknown⟩, -⟩ := missing
      exact unknown (fits id mem).1
    | unknown first id rest here _ unknown =>
      rw [failing _ rfl]
      refine ⟨fun _ stopped => (by cases stopped), ?_, fun _ _ => rfl, fun _ answered => (by cases answered)⟩
      refine iff_of_true rfl ⟨⟨id, ?_, unknown⟩, fun _ stopped => (by cases stopped)⟩
      rw [here]
      exact List.mem_append_right _ (List.mem_cons_self ..)
    | full first id rest here fits known full error =>
      rw [failing _ rfl]
      have mem : id ∈ ids := by
        rw [here]
        exact List.mem_append_right _ (List.mem_cons_self ..)
      refine ⟨fun _ _ => ?_, ?_, fun _ _ => rfl, fun _ answered => (by cases answered)⟩
      · by_cases held : before.Holds id skillId
        · have early : id ∈ ids.takeWhile fun id => decide (before.Known id) := by
            rw [here, List.takeWhile_append_of_pos fun id mem => decide_eq_true (fits id mem).1,
              List.takeWhile_cons, if_pos (decide_eq_true known)]
            exact List.mem_append_right _ (List.mem_cons_self ..)
          rw [full_without held] at full
          by_contra none
          refine fair ⟨⟨id, early, held, full⟩, fun other inside new reached => ?_⟩
          exact none ⟨other, inside, new, reached⟩
        · rw [full_new held] at full
          exact ⟨id, mem, held, full⟩
      · refine iff_of_false (fun stopped => by cases stopped) ?_
        intro missing
        exact missing.2 error rfl

/-! A folder with eleven skills, as a downgrade to the free tier may leave it. -/

private def crowd : List Text := ["s", "a", "b", "c", "d", "e", "f", "g", "h", "i", "j"].map String.toList

def crowded (skills : List Text) (distinct : skills.Nodup) : SkillFolders where
  planTier := some Cloud.tierFree
  skills := ⟨skills.map fun id => ⟨id, id, ['u'], none⟩, by
    rw [List.map_map]
    exact (List.map_id skills).symm ▸ distinct⟩
  folders := .singleton ⟨['f'], ['f'], ['F']⟩
  items := ⟨skills.map fun id => ⟨['f'], id, true, ['u']⟩, by
    rw [List.map_map]
    exact distinct.map fun one two same => (Prod.mk.inj same).2⟩
  housed := fun item mem => by
    obtain ⟨id, inside, rfl⟩ := List.mem_map.mp mem
    refine ⟨rfl, Option.isSome_iff_exists.mpr ⟨⟨id, id, ['u'], none⟩, ?_⟩⟩
    exact Table.get?_eq_some.mpr ⟨List.mem_map_of_mem inside, rfl⟩

theorem two_exact : Exact (crowded [['s'], ['a']] (by decide)) ['s'] [['f'], ['f']]
    ((crowded [['s'], ['a']] (by decide)).setSkillFolders ['u'] ['s'] [['f'], ['f']]) :=
  (set_folders_exact (by decide)).mpr fun penalised => by
    obtain ⟨⟨id, mem, -, cap, given, full⟩, -⟩ := penalised
    have only : ∀ id ∈ [['f'], ['f']], id = ['f'] := by decide
    cases given
    rw [only id ((List.takeWhile_sublist _).mem mem)] at full
    exact absurd full (by decide)

/-- The skill is put into the one folder that it is in already, and the quota forbids it. -/
theorem kept_folder_exceeds : ∃ (before : SkillFolders) (error : Cloud.ExceededError),
    (before.skills.get? ['s']).isSome = true ∧ before.Holds ['f'] ['s'] ∧
    (before.setSkillFolders ['u'] ['s'] [['f']]).1 = .error (.exceeded error) ∧
    ¬ Exact before ['s'] [['f']] (before.setSkillFolders ['u'] ['s'] [['f']]) := by
  have answer : ((crowded crowd (by decide)).setSkillFolders ['u'] ['s'] [['f']]).1 =
      .error (.exceeded ⟨10, 10, Cloud.tierFree, Cloud.tierPro⟩) := by decide
  have held : (crowded crowd (by decide)).Holds ['f'] ['s'] := by decide
  refine ⟨crowded crowd (by decide), ⟨10, 10, Cloud.tierFree, Cloud.tierPro⟩, by decide, held, answer, ?_⟩
  intro right
  obtain ⟨id, mem, new, -⟩ := right.exceeded _ answer
  rw [List.mem_singleton.mp mem] at new
  exact new held

end SkillFolders
end Dropway.Api
