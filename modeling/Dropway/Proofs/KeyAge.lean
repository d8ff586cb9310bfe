import Dropway.Edge.KeyLoads
import Dropway.Serve.Jwks

/-! How old the keys may be that edge tokens are verified with. Both caches give
the keys of the latest fetch that gave some, for no longer than its time to live
and its grace. -/

namespace Dropway
open Lib Calls
open StaleCache (Fetch Current)

/-! ### The isolates of the Worker -/

namespace Edge

variable {jose : Jose} {fetchImpl : FetchLike} {jwksUrl : Text} {cached : Option JwksCacheEntry} {now : Int}

private theorem loadKeys_usable :
    loadKeys jose fetchImpl jwksUrl cached now =
      match cached.filter fun entry => now < entry.expiresAt, usableKeys jose fetchImpl jwksUrl with
      | some entry, _ => (some entry.keys, none)
      | none, some keys => (some keys, some ⟨keys, now + jwksTtlMs⟩)
      | none, none => ((cached.filter fun entry => now < entry.expiresAt + jwksStaleGraceMs).map (·.keys), none) := by
  unfold loadKeys usableKeys
  cases cached.filter fun entry => now < entry.expiresAt with
  | some entry => rfl
  | none =>
    cases fetchJwks fetchImpl jwksUrl with
    | none => rfl
    | some doc =>
      cases imported : importKeys jose doc with
      | nil => simp [imported, Option.filter_some]
      | cons key rest => simp [imported, Option.filter_some]

/-- The Worker's load gives what the general one does, and keeps what it fetches. -/
private theorem loadKeys_loaded :
    (loadKeys jose fetchImpl jwksUrl cached now).1 =
        (StaleCache.load jwksTtlMs jwksStaleGraceMs (cached.map JwksCacheEntry.entry) now
          (usableKeys jose fetchImpl jwksUrl)).1 ∧
      (loadKeys jose fetchImpl jwksUrl cached now).2.map JwksCacheEntry.entry =
        (StaleCache.fetches (cached.map JwksCacheEntry.entry) now (usableKeys jose fetchImpl jwksUrl)).head?.map
          (Fetch.entry jwksTtlMs) := by
  rw [loadKeys_usable]
  unfold StaleCache.load StaleCache.fetches
  cases cached with
  | none =>
    rw [Option.map_none, if_neg StaleCache.not_fresh_none, if_neg StaleCache.not_fresh_none]
    cases usableKeys jose fetchImpl jwksUrl with
    | none => exact ⟨rfl, rfl⟩
    | some keys => exact ⟨rfl, rfl⟩
  | some entry =>
    rw [Option.map_some, Option.filter_some]
    by_cases fresh : now < entry.expiresAt
    · rw [if_pos (decide_eq_true fresh), if_pos (StaleCache.fresh_some_iff.mpr fresh),
        if_pos (StaleCache.fresh_some_iff.mpr fresh)]
      exact ⟨rfl, rfl⟩
    · rw [if_neg (by simpa using fresh), if_neg (fresh ∘ StaleCache.fresh_some_iff.mp),
        if_neg (fresh ∘ StaleCache.fresh_some_iff.mp)]
      cases usableKeys jose fetchImpl jwksUrl with
      | none =>
        refine ⟨?_, rfl⟩
        simp only [Option.filter_some, JwksCacheEntry.entry, apply_ite (Option.map _), Option.map_some,
          Option.map_none]
      | some keys => exact ⟨rfl, rfl⟩

/-- The longest that keys are used after the load that fetched them. -/
def keyBound : Int := jwksTtlMs + jwksStaleGraceMs

/-- The cache holds the latest fetch of each URL. -/
structure Isolate.Sound (isolate : Isolate) : Prop where
  latest : ∀ jwksUrl, (isolate.jwksCache jwksUrl).map JwksCacheEntry.entry =
    (isolate.fetches jwksUrl).head?.map (Fetch.entry jwksTtlMs)
  past : ∀ jwksUrl, ∀ fetch ∈ isolate.fetches jwksUrl, fetch.calledAt ≤ isolate.clock

def KeyLoad.Sound (clock : Int) : KeyLoad → Prop
  | .called _ => True
  | .fetching _ now cached earlier =>
    cached.map JwksCacheEntry.entry = earlier.head?.map (Fetch.entry jwksTtlMs) ∧
      (∀ fetch ∈ earlier, fetch.calledAt ≤ now) ∧ now ≤ clock
  | .returned now keys fetches => Current keyBound now fetches keys

private theorem KeyLoad.Sound.later {load : KeyLoad} {clock later : Int} (sound : load.Sound clock)
    (passed : clock ≤ later) : load.Sound later := by
  cases load with
  | called => exact sound
  | fetching => exact ⟨sound.1, sound.2.1, sound.2.2.trans passed⟩
  | returned => exact sound

private theorem Isolate.Sound.keep {isolate : Isolate} (sound : isolate.Sound) {kept : Option JwksCacheEntry}
    {own : List (Fetch Keys)} (latest : kept.map JwksCacheEntry.entry = own.head?.map (Fetch.entry jwksTtlMs))
    (past : ∀ fetch ∈ own, fetch.calledAt ≤ isolate.clock) : (isolate.keep jwksUrl kept own).Sound := by
  refine ⟨?_, ?_⟩
  · intro url
    simp only [Isolate.keep]
    by_cases same : url = jwksUrl
    · subst same
      rw [Function.update_self, Function.update_self, List.head?_append, Option.map_or, Option.map_or, latest,
        sound.latest]
    · rw [Function.update_of_ne same, Function.update_of_ne same]
      exact sound.latest url
  · intro url fetch mem
    simp only [Isolate.keep] at mem
    by_cases same : url = jwksUrl
    · subst same
      rw [Function.update_self] at mem
      rcases List.mem_append.mp mem with new | before
      · exact past fetch new
      · exact sound.past url fetch before
    · rw [Function.update_of_ne same] at mem
      exact sound.past url fetch mem

/-- What a step of a load leaves right. -/
private theorem keyLoads_sound {input : KeyLoadInput} {load after : KeyLoad} {isolate left : Isolate}
    (sound : isolate.Sound) (loading : load.Sound isolate.clock)
    (ran : keyLoads jose input load isolate = some (after, left)) :
    left.Sound ∧ after.Sound left.clock ∧ isolate.clock ≤ left.clock := by
  cases input with
  | call elapsed =>
    cases load with
    | called jwksUrl =>
      cases ran
      have passed : isolate.clock ≤ isolate.clock + elapsed := by omega
      refine ⟨⟨sound.latest, fun jwksUrl fetch mem => (sound.past jwksUrl fetch mem).trans passed⟩, ?_, passed⟩
      exact ⟨sound.latest jwksUrl, fun fetch mem => (sound.past jwksUrl fetch mem).trans passed, le_rfl⟩
    | fetching | returned => cases ran
  | response fetchImpl =>
    cases load with
    | fetching jwksUrl now cached earlier =>
      cases ran
      obtain ⟨latest, past, called⟩ := loading
      refine ⟨sound.keep loadKeys_loaded.2 fun own mem => StaleCache.calledAt_of_mem mem ▸ called, ?_, le_rfl⟩
      refine Current.of_latest ?_ ?_
      · rw [loadKeys_loaded.1]
        exact StaleCache.load_latest (by decide) (by decide) latest _
      · intro fetch mem
        rcases List.mem_append.mp mem with own | before
        · exact (StaleCache.calledAt_of_mem own).le
        · exact past fetch before
    | called | returned => cases ran

variable {κ : Type} [DecidableEq κ]

/-- Every load is yet to be called. -/
def coldLoads (urls : κ → Text) (clock : Int) : State κ KeyLoad Isolate :=
  ⟨.cold clock, fun load => .called (urls load)⟩

/-- The cache is right, and so is every load. -/
private def LoadsSound (state : State κ KeyLoad Isolate) : Prop :=
  state.store.Sound ∧ ∀ load, (state.position load).Sound state.store.clock

private theorem loads_sound (jose : Jose) (urls : κ → Text) (clock : Int) (schedule : List (Act κ KeyLoadInput)) :
    LoadsSound (performAll (keyLoads jose) schedule (coldLoads urls clock)) := by
  have cold : LoadsSound (coldLoads urls clock) :=
    ⟨⟨fun _ => rfl, fun _ _ mem => (by cases mem)⟩, fun _ => trivial⟩
  refine keeps_always LoadsSound ?_ schedule cold
  rintro state act ⟨sound, loading⟩
  refine ⟨perform_store Isolate.Sound sound ?_,
    perform_keeps (fun (isolate : Isolate) _ load => KeyLoad.Sound isolate.clock load) ?_ ?_ loading⟩
  · intro after isolate ran
    exact (keyLoads_sound sound (loading act.1) ran).1
  · intro after isolate ran
    exact (keyLoads_sound sound (loading act.1) ran).2.1
  · intro after isolate ran other _
    exact (loading other).later (keyLoads_sound sound (loading act.1) ran).2.2

end Edge

/-! ### The Go serve plane -/

namespace Serve

variable {ε : Type} {j : JwksClient} {fetched : Except ε PublicKeys} {now : Int}

def keyBound : Int := defaultTTL + defaultStaleGrace

/-- The Go client's load is the general one. -/
private theorem jwks_load :
    (j.loadKeys now fetched).1.toOption =
        (StaleCache.load defaultTTL defaultStaleGrace j.entry now (usableKeys fetched)).1 ∧
      (j.loadKeys now fetched).2.entry =
        (StaleCache.load defaultTTL defaultStaleGrace j.entry now (usableKeys fetched)).2 := by
  obtain ⟨held, expiresAt, haveGood⟩ := j
  unfold JwksClient.loadKeys StaleCache.load
  cases haveGood with
  | false =>
    simp only [JwksClient.entry, Bool.false_eq_true, false_and, if_false, StaleCache.not_fresh_none]
    cases fetched with
    | error cause => exact ⟨rfl, rfl⟩
    | ok keys => cases keys with
      | nil => exact ⟨rfl, rfl⟩
      | cons key rest => exact ⟨rfl, rfl⟩
  | true =>
    simp only [JwksClient.entry, true_and, if_true, StaleCache.fresh_some_iff]
    by_cases fresh : now < expiresAt
    · rw [if_pos fresh, if_pos fresh]
      exact ⟨rfl, rfl⟩
    · rw [if_neg fresh, if_neg fresh]
      by_cases graced : now < expiresAt + defaultStaleGrace
      · cases fetched with
        | error cause => simp [usableKeys, graced, Except.toOption]
        | ok keys => cases keys with
          | nil => simp [usableKeys, graced, Except.toOption, Option.filter_some]
          | cons key rest => exact ⟨rfl, rfl⟩
      · cases fetched with
        | error cause => simp [usableKeys, graced, Except.toOption, not_lt.mp graced]
        | ok keys => cases keys with
          | nil => simp [usableKeys, graced, Except.toOption, Option.filter_some]
          | cons key rest => exact ⟨rfl, rfl⟩

def JwksLoad.Sound : JwksLoad ε → Prop
  | .called => True
  | .returned now result fetches => Current keyBound now fetches result.toOption

/-- The client holds the latest fetch. -/
structure JwksState.Sound (state : JwksState) : Prop where
  latest : state.client.entry = state.fetches.head?.map (Fetch.entry defaultTTL)
  past : ∀ fetch ∈ state.fetches, fetch.calledAt ≤ state.clock

private theorem jwksLoads_sound {input : Nat × Except ε PublicKeys} {load after : JwksLoad ε}
    {state left : JwksState} (sound : state.Sound) (ran : jwksLoads input load state = some (after, left)) :
    left.Sound ∧ after.Sound := by
  obtain ⟨elapsed, fetched⟩ := input
  cases load with
  | returned => cases ran
  | called =>
    cases ran
    have passed : state.clock ≤ state.clock + elapsed := by omega
    have past : ∀ fetch ∈ StaleCache.fetches state.client.entry (state.clock + elapsed) (usableKeys fetched) ++
        state.fetches, fetch.calledAt ≤ state.clock + elapsed := by
      intro fetch mem
      rcases List.mem_append.mp mem with own | before
      · exact (StaleCache.calledAt_of_mem own).le
      · exact (sound.past fetch before).trans passed
    refine ⟨⟨?_, past⟩, Current.of_latest ?_ past⟩
    · exact jwks_load.2.trans (StaleCache.load_cached sound.latest _)
    · exact jwks_load.1.trans (StaleCache.load_latest (by decide) (by decide) sound.latest _)

variable {κ : Type} [DecidableEq κ]

def coldJwks (clock : Int) : State κ (JwksLoad ε) JwksState := ⟨.cold clock, fun _ => .called⟩

private def JwksSound (state : State κ (JwksLoad ε) JwksState) : Prop :=
  state.store.Sound ∧ ∀ load, (state.position load).Sound

private theorem jwks_sound (clock : Int) (schedule : List (Act κ (Nat × Except ε PublicKeys))) :
    JwksSound (performAll jwksLoads schedule (coldJwks clock)) := by
  have cold : JwksSound (coldJwks clock : State κ (JwksLoad ε) JwksState) :=
    ⟨⟨rfl, fun _ mem => (by cases mem)⟩, fun _ => trivial⟩
  refine keeps_always JwksSound ?_ schedule cold
  rintro state act ⟨sound, loading⟩
  refine ⟨perform_store JwksState.Sound sound ?_,
    perform_keeps (fun (_ : JwksState) _ (load : JwksLoad ε) => load.Sound) ?_ ?_ loading⟩
  · intro after left ran
    exact (jwksLoads_sound sound ran).1
  · intro after left ran
    exact (jwksLoads_sound sound ran).2
  · intro _ _ _ other _
    exact loading other

end Serve

/-! ### Both -/

variable {κ ε : Type} [DecidableEq κ]

/-- However the loads of an isolate overlap, and however those of a Go server
follow each other: each gives the keys of the latest fetch that gave some, no
older than the time to live and the grace, or fails. -/
theorem loads_current (jose : Edge.Jose) (urls : κ → Text) (clock : Int)
    (schedule : List (Act κ Edge.KeyLoadInput)) (others : List (Act κ (Nat × Except ε Serve.PublicKeys))) :
    (∀ load now keys fetches,
        (performAll (Edge.keyLoads jose) schedule (Edge.coldLoads urls clock)).position load =
          .returned now keys fetches →
        Current Edge.keyBound now fetches keys) ∧
      (∀ load now result fetches,
        (performAll Serve.jwksLoads others (Serve.coldJwks clock)).position load = .returned now result fetches →
        Current Serve.keyBound now fetches result.toOption) := by
  refine ⟨?_, ?_⟩
  · intro load now keys fetches returned
    have sound := (Edge.loads_sound jose urls clock schedule).2 load
    rw [returned] at sound
    exact sound
  · intro load now result fetches returned
    have sound := (Serve.jwks_sound clock others).2 load
    rw [returned] at sound
    exact sound

end Dropway
