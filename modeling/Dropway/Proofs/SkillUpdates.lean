import Dropway.Api.Skills
import Mathlib.Logic.Relation

/-! What the checks for skill updates tell. They compare version numbers, which
follow the order in which versions were created, and not which of them is live. -/

namespace Dropway.Api
open Lib Outcome

inductive SkillStep : SkillLibrary → SkillLibrary → Prop
  | create {library after : SkillLibrary} {id slug owner : Text} (created : library.createSkill id slug owner = .ok after) :
      SkillStep library after
  | upload {library after : SkillLibrary} {id skillId contentHash : Text}
      {quota : Except StoreError Unit} {row : SkillVersionRow}
      (created : library.createSkillVersion id skillId contentHash quota = .ok (row, after)) :
      SkillStep library after
  | publish {library after : SkillLibrary} {skillId versionId : Text}
      (published : library.publishSkillVersion skillId versionId = .ok after) : SkillStep library after

abbrev SkillRun : SkillLibrary → SkillLibrary → Prop := Relation.ReflTransGen SkillStep

variable {library after : SkillLibrary} {skillId versionId contentHash id slug owner : Text}
  {skill : SkillRow} {row : SkillVersionRow} {quota : Except StoreError Unit}

/-- Version numbers follow the creation of a skill's versions. -/
def NumberedOnce (rows : List SkillVersionRow) : Prop :=
  rows.Pairwise fun one two => one.skillId = two.skillId → one.versionNo < two.versionNo

structure SkillLibrary.Sound (library : SkillLibrary) : Prop where
  slugs : (library.skills.rows.map SkillRow.slug).Nodup
  current : ∀ skill ∈ library.skills.rows, ∀ versionId, skill.currentVersionId = some versionId →
    ∃ row ∈ library.versions.rows, row.id = versionId ∧ row.skillId = skill.id
  numbered : NumberedOnce library.versions.rows
  positive : ∀ row ∈ library.versions.rows, 0 < row.versionNo

/-! ### What a step does -/

theorem createSkill_ok (created : library.createSkill id slug owner = .ok after) :
    after.versions = library.versions ∧ slug ∉ library.skills.rows.map SkillRow.slug ∧
      after.skills.rows = library.skills.rows ++ [⟨id, slug, owner, none⟩] := by
  unfold SkillLibrary.createSkill at created
  split at created
  · cases created
  split at created
  · cases created
  · rename_i fresh
    cases created
    refine ⟨rfl, fun mem => ?_, rfl⟩
    obtain ⟨skill, mem, same⟩ := List.mem_map.mp mem
    exact fresh (List.any_eq_true.mpr ⟨skill, mem, decide_eq_true same⟩)

/-- An upload adds a version with the next number, or nothing. -/
theorem createSkillVersion_ok
    (created : library.createSkillVersion id skillId contentHash quota = .ok (row, after)) :
    after.skills = library.skills ∧ row.skillId = skillId ∧ row ∈ after.versions.rows ∧
      (after.versions.rows = library.versions.rows ∨
        row.versionNo = library.nextSkillVersionNo skillId ∧
          after.versions.rows = library.versions.rows ++ [row]) := by
  unfold SkillLibrary.createSkillVersion at created
  obtain ⟨_, -, created⟩ := Outcome.bind_ok.mp created
  obtain ⟨_, -, created⟩ := Outcome.bind_ok.mp created
  split at created
  · rename_i existing found
    cases created
    have known := List.find?_some found
    rw [decide_eq_true_eq] at known
    exact ⟨rfl, known.1, List.mem_of_find?_eq_some found, .inl rfl⟩
  · split at created
    · cases created
    · cases created
      exact ⟨rfl, rfl, List.mem_append_right _ (List.mem_singleton_self _), .inr ⟨rfl, rfl⟩⟩

theorem publishSkillVersion_ok (published : library.publishSkillVersion skillId versionId = .ok after) :
    (∃ row ∈ library.versions.rows, row.id = versionId ∧ row.skillId = skillId) ∧
      after.versions = library.versions ∧
      after.skills.rows = library.skills.rows.map fun skill =>
        if decide (skill.id = skillId) then { skill with currentVersionId := some versionId } else skill := by
  unfold SkillLibrary.publishSkillVersion at published
  obtain ⟨_, -, published⟩ := Outcome.bind_ok.mp published
  obtain ⟨version, found, published⟩ := Outcome.bind_ok.mp published
  obtain ⟨_, owned, published⟩ := Outcome.bind_ok.mp published
  cases published
  obtain ⟨mem, same⟩ := Table.get?_eq_some.mp (orFail_ok.mp found)
  exact ⟨⟨version, mem, same, require_ok.mp owned⟩, rfl, rfl⟩

/-! ### What a step keeps -/

/-- Versions stay, and so does what a skill is called and that it has been published. -/
structure SkillLibrary.Grows (library after : SkillLibrary) : Prop where
  versions : ∃ more, after.versions.rows = library.versions.rows ++ more
  skills : ∀ skill ∈ library.skills.rows, ∃ later ∈ after.skills.rows, later.id = skill.id ∧
    later.slug = skill.slug ∧ (skill.currentVersionId.isSome → later.currentVersionId.isSome)

theorem SkillLibrary.Grows.refl : library.Grows library :=
  ⟨⟨[], (List.append_nil _).symm⟩, fun skill mem => ⟨skill, mem, rfl, rfl, id⟩⟩

theorem SkillLibrary.Grows.trans {last : SkillLibrary} (first : library.Grows after) (second : after.Grows last) :
    library.Grows last := by
  refine ⟨?_, fun skill mem => ?_⟩
  · obtain ⟨more, grown⟩ := first.versions
    obtain ⟨others, later⟩ := second.versions
    exact ⟨more ++ others, by rw [later, grown, List.append_assoc]⟩
  · obtain ⟨between, mem, sameId, sameSlug, published⟩ := first.skills skill mem
    obtain ⟨later, mem, laterId, laterSlug, still⟩ := second.skills between mem
    exact ⟨later, mem, laterId.trans sameId, laterSlug.trans sameSlug, fun some => still (published some)⟩

theorem SkillStep.grows (step : SkillStep library after) : library.Grows after := by
  cases step with
  | create created =>
    obtain ⟨versions, -, skills⟩ := createSkill_ok created
    refine ⟨⟨[], by rw [versions, List.append_nil]⟩, fun skill mem => ⟨skill, ?_, rfl, rfl, id⟩⟩
    rw [skills]
    exact List.mem_append_left _ mem
  | upload created =>
    obtain ⟨skills, -, -, versions⟩ := createSkillVersion_ok created
    refine ⟨?_, fun skill mem => ⟨skill, skills ▸ mem, rfl, rfl, id⟩⟩
    rcases versions with same | ⟨-, grown⟩
    · exact ⟨[], by rw [same, List.append_nil]⟩
    · exact ⟨_, grown⟩
  | publish published =>
    obtain ⟨-, versions, skills⟩ := publishSkillVersion_ok published
    refine ⟨⟨[], by rw [versions, List.append_nil]⟩, fun skill mem => ?_⟩
    refine ⟨_, skills ▸ List.mem_map_of_mem mem, ?_⟩
    split
    · exact ⟨rfl, rfl, fun _ => rfl⟩
    · exact ⟨rfl, rfl, id⟩

theorem SkillRun.grows (run : SkillRun library after) : library.Grows after := by
  induction run with
  | refl => exact .refl
  | tail _ step ih => exact ih.trans step.grows

private theorem le_foldr_max {numbers : List Nat} {n : Nat} (mem : n ∈ numbers) : n ≤ numbers.foldr max 0 := by
  induction numbers with
  | nil => cases mem
  | cons m rest ih =>
    rw [List.foldr_cons]
    rcases List.mem_cons.mp mem with rfl | mem
    · exact Nat.le_max_left _ _
    · exact (ih mem).trans (Nat.le_max_right _ _)

theorem versionNo_lt_next (mem : row ∈ library.versions.rows) :
    row.versionNo < library.nextSkillVersionNo row.skillId :=
  Nat.lt_succ_of_le (le_foldr_max (List.mem_map_of_mem (Table.mem_filter.mpr ⟨mem, decide_eq_true rfl⟩)))

theorem SkillStep.sound (step : SkillStep library after) (sound : library.Sound) : after.Sound := by
  cases step with
  | create created =>
    obtain ⟨versions, fresh, skills⟩ := createSkill_ok created
    refine ⟨?_, fun skill mem versionId live => ?_, versions ▸ sound.numbered, versions ▸ sound.positive⟩
    · rw [skills, List.map_append, List.nodup_append]
      refine ⟨sound.slugs, List.nodup_singleton _, fun slug mem other last same => ?_⟩
      obtain rfl := same.trans (List.mem_singleton.mp last)
      exact fresh mem
    · rw [skills] at mem
      rw [versions]
      rcases List.mem_append.mp mem with mem | last
      · exact sound.current skill mem versionId live
      · rw [List.mem_singleton.mp last] at live
        cases live
  | upload created =>
    rename_i skillId contentHash quota row
    obtain ⟨skills, rfl, -, versions⟩ := createSkillVersion_ok created
    rcases versions with same | ⟨number, grown⟩
    · exact ⟨skills ▸ sound.slugs, by rw [skills, same]; exact sound.current, same ▸ sound.numbered,
        same ▸ sound.positive⟩
    · refine ⟨skills ▸ sound.slugs, fun skill mem versionId live => ?_, ?_, ?_⟩
      · obtain ⟨found, mem, facts⟩ := sound.current skill (skills ▸ mem) versionId live
        exact ⟨found, grown ▸ List.mem_append_left _ mem, facts⟩
      · rw [grown]
        refine List.pairwise_append.mpr ⟨sound.numbered, List.pairwise_singleton _ _, ?_⟩
        intro one mem two last same
        rw [List.mem_singleton.mp last] at same ⊢
        rw [number, ← same]
        exact versionNo_lt_next mem
      · intro other mem
        rcases List.mem_append.mp (grown ▸ mem) with mem | last
        · exact sound.positive other mem
        · rw [List.mem_singleton.mp last, number]
          exact Nat.succ_pos _
  | publish published =>
    obtain ⟨⟨row, mem, rfl, owned⟩, versions, skills⟩ := publishSkillVersion_ok published
    refine ⟨?_, fun skill live versionId current => ?_, versions ▸ sound.numbered, versions ▸ sound.positive⟩
    · rw [skills, List.map_map]
      convert sound.slugs using 2
      funext skill
      simp only [Function.comp_apply]
      split <;> rfl
    · rw [versions]
      obtain ⟨old, oldMem, rfl⟩ := List.mem_map.mp (skills ▸ live)
      split at current
      · rename_i same
        cases current
        refine ⟨row, mem, rfl, ?_⟩
        rw [if_pos same]
        exact owned.trans (of_decide_eq_true same).symm
      · rename_i other
        rw [if_neg other]
        exact sound.current old oldMem versionId current

theorem SkillRun.sound (run : SkillRun library after) (sound : library.Sound) : after.Sound := by
  induction run with
  | refl => exact sound
  | tail _ step ih => exact step.sound ih

theorem empty_sound : SkillLibrary.empty.Sound :=
  ⟨List.nodup_nil, fun _ mem => (by cases mem), List.Pairwise.nil, fun _ mem => (by cases mem)⟩

/-! ### What the checks say -/

/-- The first version was there before the second. -/
def CreatedBefore (rows : List SkillVersionRow) (one two : SkillVersionRow) : Prop :=
  ∃ front back, rows = front ++ two :: back ∧ one ∈ front

/-- The command line tells of the record. -/
def PlanTells (records : List SkillRecord) (skills : List SkillInfo) (record : SkillRecord) : Prop :=
  ∃ update ∈ planSkillUpdates records skills, update.slug = record.slug ∧ update.held = record.version

/-- The tool calls what is installed outdated. -/
def CheckTells (installed : List InstalledSkill) (skills : List SkillInfo) (record : SkillRecord) : Prop :=
  ∃ info ∈ checkSkillUpdates installed skills,
    info.name = record.slug ∧ info.installedVersion = record.version ∧ info.outdated = true

theorem planTells_iff {records : List SkillRecord} {skills : List SkillInfo} {record : SkillRecord}
    {skill : SkillInfo} (pulled : record ∈ records) (found : latest skills record.slug = some skill)
    (positive : 0 < skill.version) :
    PlanTells records skills record ↔ record.version < skill.version := by
  unfold PlanTells planSkillUpdates
  simp only [List.mem_insertionSort, List.mem_filterMap]
  constructor
  · rintro ⟨update, ⟨other, -, planned⟩, slug, version⟩
    split at planned
    · cases planned
    rename_i listed
    split at planned
    · cases planned
    split at planned
    · rename_i behind
      cases planned
      have slug : other.slug = record.slug := slug
      have version : other.version = record.version := version
      rw [slug, found, Option.some.injEq] at listed
      rwa [listed, ← version]
    · cases planned
  · intro behind
    refine ⟨⟨record.slug, record.version, skill.version⟩, ⟨record, pulled, ?_⟩, rfl, rfl⟩
    rw [found]
    exact (if_neg (by omega)).trans (if_pos behind)

theorem checkTells_iff {installed : List InstalledSkill} {skills : List SkillInfo} {record : SkillRecord}
    {skill : SkillInfo} (held : ⟨record.slug, record.version⟩ ∈ installed)
    (found : latest skills record.slug = some skill) :
    CheckTells installed skills record ↔ record.version < skill.version := by
  unfold CheckTells checkSkillUpdates
  simp only [List.mem_map]
  constructor
  · rintro ⟨info, ⟨other, -, rfl⟩, name, version, outdated⟩
    have name : other.name = record.slug := name
    have version : other.version = record.version := version
    have behind := of_decide_eq_true outdated
    rw [name, found, version] at behind
    exact behind
  · intro behind
    refine ⟨_, ⟨_, held, rfl⟩, rfl, rfl, ?_⟩
    rw [found]
    exact decide_eq_true behind

/-- Numbers tell which of two versions was there first. -/
theorem createdBefore_iff {rows : List SkillVersionRow} {one two : SkillVersionRow} (numbered : NumberedOnce rows)
    (mem : one ∈ rows) (also : two ∈ rows) (same : one.skillId = two.skillId) :
    CreatedBefore rows one two ↔ one.versionNo < two.versionNo := by
  constructor
  · rintro ⟨front, back, rfl, earlier⟩
    exact (List.pairwise_append.mp numbered).2.2 one earlier two List.mem_cons_self same
  · intro less
    obtain ⟨front, back, rfl⟩ := List.append_of_mem also
    refine ⟨front, back, rfl, ?_⟩
    rcases List.mem_append.mp mem with earlier | later
    · exact earlier
    · have order : two.versionNo ≤ one.versionNo := by
        rcases List.mem_cons.mp later with rfl | later
        · exact Nat.le_refl _
        · have after := (List.pairwise_cons.mp (List.pairwise_append.mp numbered).2.1).1 one later
          exact Nat.le_of_lt (after same.symm)
      omega

private theorem number_ne {rows : List SkillVersionRow} {one two : SkillVersionRow} (numbered : NumberedOnce rows)
    (mem : one ∈ rows) (also : two ∈ rows) (same : one.skillId = two.skillId) (differ : one ≠ two) :
    one.versionNo ≠ two.versionNo := by
  let Apart (a b : SkillVersionRow) : Prop := a.skillId = b.skillId → a.versionNo ≠ b.versionNo
  have symm : Std.Symm Apart := ⟨fun a b apart same => (apart same.symm).symm⟩
  have apart : rows.Pairwise Apart := numbered.imp fun less same => Nat.ne_of_lt (less same)
  exact apart.forall mem also differ same

/-- A live skill is listed by its slug, with the number of its version. -/
theorem latest_listed (sound : library.Sound) (caller : Text) (mem : skill ∈ library.skills.rows)
    (live : skill.currentVersionId.isSome) :
    latest (library.listSkills caller) skill.slug = some ⟨skill.slug, library.currentVersionNo skill⟩ := by
  have listed : (⟨skill.slug, library.currentVersionNo skill⟩ : SkillInfo) ∈ library.listSkills caller :=
    List.mem_map_of_mem (Table.mem_filter.mpr ⟨mem, Bool.or_eq_true_iff.mpr (.inl live)⟩)
  cases found : latest (library.listSkills caller) skill.slug with
  | none =>
    have absent := List.find?_eq_none.mp found _ (List.mem_reverse.mpr listed)
    exact absurd (decide_eq_true rfl) absent
  | some info =>
    obtain ⟨other, shown, rfl⟩ := List.mem_map.mp (List.mem_reverse.mp (List.mem_of_find?_eq_some found))
    have same : other.slug = skill.slug := by simpa using List.find?_some found
    rw [List.inj_on_of_nodup_map sound.slugs (Table.mem_filter.mp shown).1 mem same]

/-- The row of a live version. -/
private theorem current_row (sound : library.Sound) (mem : skill ∈ library.skills.rows)
    (current : skill.currentVersionId = some versionId) :
    ∃ row ∈ library.versions.rows, row.id = versionId ∧ row.skillId = skill.id ∧
      library.currentVersionNo skill = row.versionNo := by
  obtain ⟨row, rowMem, rfl, owned⟩ := sound.current skill mem versionId current
  refine ⟨row, rowMem, rfl, owned, ?_⟩
  rw [SkillLibrary.currentVersionNo, current, Option.bind_some, Table.get?_eq_some.mpr ⟨rowMem, rfl⟩]
  rfl

/-- Both checks tell of a record exactly if its skill's live version is another. -/
def ChecksRight (records : List SkillRecord) (installed : List InstalledSkill) (skills : List SkillInfo)
    (record : SkillRecord) (differs : Prop) : Prop :=
  (PlanTells records skills record ↔ differs) ∧ (CheckTells installed skills record ↔ differs)

/-- The checks are right unless a version is live again that is older than the one
that was downloaded. -/
theorem checks_right_iff {downloaded checked : SkillLibrary} {record : SkillRecord} {held : Text}
    {records : List SkillRecord} {installed : List InstalledSkill} {caller : Text}
    (before : SkillRun .empty downloaded) (run : SkillRun downloaded checked)
    (download : downloaded.download skillId = some (record, held))
    (pulled : record ∈ records) (installs : ⟨record.slug, record.version⟩ ∈ installed) :
    ∃ current row heldRow, (checked.skills.get? skillId).bind SkillRow.currentVersionId = some current ∧
      checked.versions.get? current = some row ∧ checked.versions.get? held = some heldRow ∧
      (ChecksRight records installed (checked.listSkills caller) record (current ≠ held) ↔
        ¬ CreatedBefore checked.versions.rows row heldRow) := by
  have sound := before.sound empty_sound
  have soundNow := run.sound sound
  have grows := run.grows
  obtain ⟨skill, found, download⟩ := Option.bind_eq_some_iff.mp download
  obtain ⟨_, live, same⟩ := Option.bind_eq_some_iff.mp download
  cases same
  obtain ⟨mem, sameId⟩ := Table.get?_eq_some.mp found
  obtain ⟨later, laterMem, laterId, laterSlug, published⟩ := grows.skills skill mem
  obtain ⟨current, laterLive⟩ := Option.isSome_iff_exists.mp (published (live ▸ rfl))
  obtain ⟨heldRow, heldMem, rfl, heldOwned, heldNo⟩ := current_row sound mem live
  obtain ⟨row, rowMem, rfl, owned, number⟩ := current_row soundNow laterMem laterLive
  obtain ⟨more, grown⟩ := grows.versions
  have stays : heldRow ∈ checked.versions.rows := grown ▸ List.mem_append_left _ heldMem
  have sameSkill : row.skillId = heldRow.skillId := owned.trans (laterId.trans heldOwned.symm)
  refine ⟨row.id, row, heldRow, ?_, Table.get?_eq_some.mpr ⟨rowMem, rfl⟩, Table.get?_eq_some.mpr ⟨stays, rfl⟩, ?_⟩
  · rw [Table.get?_eq_some.mpr ⟨laterMem, laterId.trans sameId⟩, Option.bind_some, laterLive]
  have listed := latest_listed soundNow caller laterMem (laterLive ▸ rfl)
  rw [laterSlug, number] at listed
  have plan := planTells_iff pulled listed (soundNow.positive row rowMem)
  have check := checkTells_iff installs listed
  rw [ChecksRight, plan, check, and_self, heldNo, createdBefore_iff soundNow.numbered rowMem stays sameSkill]
  by_cases one : row = heldRow
  · subst one
    exact iff_of_true (iff_of_false (Nat.lt_irrefl _) (not_not_intro rfl)) (Nat.lt_irrefl _)
  · have differ : row.id ≠ heldRow.id := fun equal => one (checked.versions.eq_of_key rowMem stays equal)
    have apart := number_ne soundNow.numbered rowMem stays sameSkill one
    rw [iff_true_right differ]
    dsimp only
    omega

theorem finalizeSkillUpload_run (finalized : library.finalizeSkillUpload id skillId contentHash quota = .ok after) :
    SkillRun library after := by
  obtain ⟨⟨version, created⟩, uploaded, published⟩ := Outcome.bind_ok.mp finalized
  exact (Relation.ReflTransGen.single (.upload uploaded)).tail (.publish published)

private def orSame (library : SkillLibrary) : Except StoreError SkillLibrary → SkillLibrary
  | .ok after => after
  | .error _ => library

private def greet : SkillLibrary := orSame .empty (SkillLibrary.empty.createSkill ['k'] ['g'] ['u'])

private def upload (library : SkillLibrary) (id contentHash : Text) : SkillLibrary :=
  orSame library (library.finalizeSkillUpload id ['k'] contentHash (.ok ()))

private def twice : SkillLibrary := upload (upload greet ['1'] ['a']) ['2'] ['b']

private def again : SkillLibrary := upload twice ['3'] ['a']

private theorem twice_run : SkillRun .empty twice := by
  have greeted : SkillLibrary.empty.createSkill ['k'] ['g'] ['u'] = .ok greet := rfl
  have once : greet.finalizeSkillUpload ['1'] ['k'] ['a'] (.ok ()) = .ok (upload greet ['1'] ['a']) := rfl
  have more : (upload greet ['1'] ['a']).finalizeSkillUpload ['2'] ['k'] ['b'] (.ok ()) = .ok twice := rfl
  exact (Relation.ReflTransGen.single (.create greeted)).trans
    ((finalizeSkillUpload_run once).trans (finalizeSkillUpload_run more))

private theorem again_run : SkillRun twice again := by
  have last : twice.finalizeSkillUpload ['3'] ['k'] ['a'] (.ok ()) = .ok again := rfl
  exact finalizeSkillUpload_run last

private def pulled : SkillRecord := ⟨['g'], ['k'], 2⟩

/-- The first content is uploaded again, and neither check tells of it. -/
theorem reverted_untold : ∃ downloaded checked record current held,
    SkillRun .empty downloaded ∧ SkillRun downloaded checked ∧
      downloaded.download ['k'] = some (record, held) ∧
      (checked.skills.get? ['k']).bind SkillRow.currentVersionId = some current ∧
      ¬ ChecksRight [record] [⟨record.slug, record.version⟩] (checked.listSkills []) record (current ≠ held) := by
  refine ⟨twice, again, pulled, ['1'], ['2'], twice_run, again_run, rfl, rfl, fun right => ?_⟩
  have listed : latest (again.listSkills []) pulled.slug = some ⟨['g'], 1⟩ := rfl
  have told := right.2.mpr (by simp)
  have behind : 2 < 1 := (checkTells_iff (List.mem_singleton_self _) listed).mp told
  omega

theorem reverted_right_iff : ∃ current row heldRow,
    (again.skills.get? ['k']).bind SkillRow.currentVersionId = some current ∧
      again.versions.get? current = some row ∧ again.versions.get? ['2'] = some heldRow ∧
      (ChecksRight [pulled] [⟨['g'], 2⟩] (again.listSkills []) pulled (current ≠ ['2']) ↔
        ¬ CreatedBefore again.versions.rows row heldRow) :=
  checks_right_iff twice_run again_run rfl (List.mem_singleton_self _) (List.mem_singleton_self _)

end Dropway.Api
