import Dropway.Api.Authz
import Dropway.Proofs.HardRevocation
import Dropway.Proofs.RouteAgreement

/-! Whether a policy change cuts off what was granted under the policies before it.
The denylist entry rejects the tokens signed before the change revokes; a grant that
was decided before the change and is signed after it gets through. -/

namespace Dropway.Api.OldGrants
open Lib Lib.Calls
open Projection (Answer Denylist Revocation RevokeCall RevokeStep Stage kindSite revoke_step)
open Proofs.GatedSecrecy (Admitted membersId membersRoute membersUrl)
open Proofs.HardRevocation (Exact WorkerReads worker_rejects mint_issued)

variable {K : Type} [Ring K] [LinearOrder K] [FloorRing K] {κ : Type} [DecidableEq κ]

abbrev Running (κ K : Type) := State κ (Granting K) (Granted K)

def siteKey (siteId : Text) : Text := Revocation.key ⟨kindSite, siteId, 0⟩

/-- A token that the Worker turns away, whatever the route, once it sees the entry. -/
def CutOff (denylist : Denylist) (token : GrantedToken) : Prop :=
  ∀ text s request route url world found,
    WorkerReads text token.claims s denylist (siteKey token.claims.siteId) →
      ¬ Admitted s request route url world text found

/-- Where a change of a site's policy has returned, what was granted under an older
policy is cut off. -/
def Cut (state : Running κ K) : Prop :=
  ∀ call siteId commit, state.position call = .changed siteId commit →
    ∀ token ∈ state.store.minted, token.claims.siteId = siteId → token.seen < commit →
      CutOff state.store.denylist token

/-- No request of the step fails, and its second is one that JSON readers keep. -/
structure Unfailing (state : Running κ K) (act : Act κ (Surroundings K)) : Prop where
  served : act.2.answer = .served
  valid : ∀ revoke commit, state.position act.1 = .revoking revoke commit →
    revoke.call.validate = .ok ()
  whole : Exact ⌊act.2.clock⌋

/-- A request is past the second in which it revokes. -/
def Revoking (siteId : Text) (commit : Nat) : Granting K → Prop
  | .revoking revoke own => revoke.call.id = siteId ∧ own = commit
  | .changed site own => site = siteId ∧ own = commit
  | _ => False

/-- No token is signed for a grant under an older policy than one whose change has
begun to revoke, and no entry is lowered. -/
structure Timely (state : Running κ K) (act : Act κ (Surroundings K)) : Prop where
  current : ∀ params seen, state.position act.1 = .signing params seen →
    ∀ call commit, Revoking params.siteId commit (state.position call) → commit ≤ seen
  rising : ∀ revoke commit, state.position act.1 = .revoking revoke commit → revoke.stage = .writing →
    ∀ entry, state.store.denylist revoke.call.key = some entry → entry ≤ revoke.call.minIAT

/-- Requests that have not begun, in a world whose tokens and entries carry dates. -/
structure Sound (world : Granted K) : Prop where
  minted : ∀ token ∈ world.minted, ∃ second, token.claims.issuedAt = some second ∧
    second ≤ ⌊world.now⌋ ∧ Exact second
  entries : ∀ key entry, world.denylist key = some entry → 0 ≤ entry ∧ Exact entry

/-! ### What a step can do -/

/-- Neither revoking nor done with it. -/
def Quiet : Granting K → Prop
  | .revoking _ _ => False
  | .changed _ _ => False
  | _ => True

variable {config : Config} {verify : Text → Text → Bool} {s : Surroundings K}
  {position moved : Granting K} {world after : Granted K}

/-- A step signs a token, begins to revoke, goes on revoking, or leaves tokens and
entries alone. -/
inductive Effect (s : Surroundings K) (world : Granted K) : Granting K → Granting K → Granted K → Prop
  | quiet {position moved : Granting K} {after : Granted K} (rest : Quiet moved)
      (minted : after.minted = world.minted) (denylist : after.denylist = world.denylist)
      (now : after.now = world.now) : Effect s world position moved after
  | signs {params : Edgetoken.MintParams K} {seen : Nat} {claims : Edgetoken.Claims}
      (signed : Edgetoken.mint params s.jti s.clock = .ok claims) :
      Effect s world (.signing params seen) .finished
        { world with minted := ⟨claims, seen⟩ :: world.minted }
  | begins {siteId : Text} {commit : Nat} : Effect s world (.projecting siteId [] commit)
      (.revoking ⟨⟨kindSite, siteId, ⌊s.clock⌋⟩, .called⟩ commit) world
  | reads {call : Revocation} {stage : Stage} {commit : Nat} {stored : Denylist}
      (step : RevokeStep call world.denylist s.answer stage .writing stored) :
      Effect s world (.revoking ⟨call, stage⟩ commit) (.revoking ⟨call, .writing⟩ commit)
        { world with denylist := stored }
  | returns {call : Revocation} {stage : Stage} {commit : Nat} {stored : Denylist}
      {error : Option Projection.RevokeError}
      (step : RevokeStep call world.denylist s.answer stage (.returned error) stored) :
      Effect s world (.revoking ⟨call, stage⟩ commit) (.changed call.id commit)
        { world with denylist := stored }

theorem grantStep_effect (ran : grantStep config verify s position world = some (moved, after)) :
    Effect s world position moved after := by
  have quiet : ∀ {position moved : Granting K}, Quiet moved → Effect s world position moved world :=
    fun rest => .quiet rest rfl rfl rfl
  cases position with
  | finished => cases ran
  | changed => cases ran
  | waiting request =>
    cases request with
    | authzMint viewer issuedAt host =>
      rw [grantStep] at ran
      split at ran
      · cases ran
        exact quiet trivial
      · split at ran
        · cases ran
          exact quiet trivial
        · cases ran
          exact quiet trivial
    | authzPassword host password =>
      rw [grantStep] at ran
      split at ran
      · cases ran
        exact quiet trivial
      · split at ran
        · cases ran
          exact quiet trivial
        · cases ran
          exact quiet trivial
    | setSiteAccess t p =>
      rw [grantStep] at ran
      split at ran
      · cases ran
        exact quiet trivial
      · cases ran
        exact .quiet trivial rfl rfl rfl
  | checking jwtIAT decision seen =>
    rw [grantStep] at ran
    split at ran
    · cases ran
      exact quiet trivial
    · cases ran
      exact quiet trivial
  | comparing password decision hash seen =>
    rw [grantStep] at ran
    split at ran
    · cases ran
      exact quiet trivial
    · split at ran
      · cases ran
        exact quiet trivial
      · cases ran
        exact quiet trivial
  | signing params seen =>
    rw [grantStep] at ran
    split at ran
    · cases ran
      exact quiet trivial
    · rename_i claims signed
      cases ran
      exact .signs signed
  | projecting siteId routes commit =>
    cases routes with
    | nil =>
      cases ran
      exact .begins
    | cons update rest =>
      rw [grantStep] at ran
      split at ran
      · cases ran
        exact .quiet trivial rfl rfl rfl
      · cases ran
        exact quiet trivial
  | revoking revoke commit =>
    obtain ⟨call, stage⟩ := revoke
    rw [grantStep] at ran
    obtain ⟨⟨⟨next, reached⟩, stored⟩, step, same⟩ := Option.map_eq_some_iff.mp ran
    obtain ⟨rfl, effect⟩ := revoke_step step
    cases reached with
    | called =>
      generalize s.answer = answer at effect
      cases effect
    | writing =>
      cases same
      exact .reads effect
    | returned error =>
      cases same
      exact .returns effect

/-! ### What every step keeps -/

/-- The tokens of a site under older policies than this one were signed before a second. -/
def Older (world : Granted K) (siteId : Text) (commit : Nat) (second : Int) : Prop :=
  ∀ token ∈ world.minted, token.claims.siteId = siteId → token.seen < commit →
    ∃ issued, token.claims.issuedAt = some issued ∧ issued < second ∧ Exact issued

/-- A change that revokes has a second after that of every older token, and one that
has returned has left such a second in the denylist. -/
def Promised (world : Granted K) : Granting K → Prop
  | .revoking revoke commit => revoke.call.kind = kindSite ∧ Exact revoke.call.minIAT ∧
      (revoke.stage = .writing → 0 ≤ revoke.call.minIAT) ∧ Older world revoke.call.id commit revoke.call.minIAT
  | .changed siteId commit => ∃ entry, world.denylist (siteKey siteId) = some entry ∧ Older world siteId commit entry
  | _ => True

def Kept (state : Running κ K) : Prop :=
  Sound state.store ∧ ∀ call, Promised state.store (state.position call)

omit [Ring K] [LinearOrder K] [FloorRing K] in
theorem Older.mono {siteId : Text} {commit : Nat} {second later : Int}
    (older : Older world siteId commit second) (le : second ≤ later) : Older world siteId commit later := by
  intro token mem own seen
  obtain ⟨issued, read, before, whole⟩ := older token mem own seen
  exact ⟨issued, read, lt_of_lt_of_le before le, whole⟩

/-- All tokens there are were signed before a step that is taken in a later second. -/
theorem Sound.older (sound : Sound world) {second : Int} (later : ⌊world.now⌋ < second) (siteId : Text)
    (commit : Nat) : Older world siteId commit second := by
  intro token mem _ _
  obtain ⟨issued, read, past, whole⟩ := sound.minted token mem
  exact ⟨issued, read, lt_of_le_of_lt past later, whole⟩

omit [Ring K] [LinearOrder K] [FloorRing K] in
/-- A promise outlasts what leaves the tokens alone and lowers no entry. -/
theorem Promised.keep (promised : Promised world position) (minted : after.minted = world.minted)
    (rises : ∀ key entry, world.denylist key = some entry →
      ∃ later, after.denylist key = some later ∧ entry ≤ later) : Promised after position := by
  have older : ∀ {siteId : Text} {commit : Nat} {second : Int}, Older world siteId commit second →
      Older after siteId commit second := fun older token mem => older token (minted ▸ mem)
  cases position with
  | revoking revoke commit =>
    obtain ⟨kind, exact', positive, before⟩ := promised
    exact ⟨kind, exact', positive, older before⟩
  | changed siteId commit =>
    obtain ⟨entry, stored, before⟩ := promised
    obtain ⟨later, risen, le⟩ := rises _ entry stored
    exact ⟨later, risen, older (before.mono le)⟩
  | waiting | checking | comparing | signing | projecting | finished => trivial

omit [Ring K] [LinearOrder K] [FloorRing K] in
/-- A promise outlasts the signing of a token under a policy that is not older. -/
theorem Promised.sign (promised : Promised world position) {token : GrantedToken}
    (current : ∀ commit, Revoking token.claims.siteId commit position → commit ≤ token.seen) :
    Promised { world with minted := token :: world.minted } position := by
  have older : ∀ {siteId : Text} {commit : Nat} {second : Int},
      (token.claims.siteId = siteId → commit ≤ token.seen) → Older world siteId commit second →
      Older { world with minted := token :: world.minted } siteId commit second := by
    intro siteId commit second newer older other mem own seen
    rcases List.mem_cons.mp mem with rfl | mem
    · exact absurd (newer own) (not_le.mpr seen)
    · exact older other mem own seen
  cases position with
  | revoking revoke commit =>
    obtain ⟨kind, exact', positive, before⟩ := promised
    exact ⟨kind, exact', positive, older (fun own => current commit ⟨own.symm, rfl⟩) before⟩
  | changed siteId commit =>
    obtain ⟨entry, stored, before⟩ := promised
    exact ⟨entry, stored, older (fun own => current commit ⟨own.symm, rfl⟩) before⟩
  | waiting | checking | comparing | signing | projecting | finished => trivial

private theorem mint_siteId {params : Edgetoken.MintParams K} {jti : Option Text} {now : K}
    {claims : Edgetoken.Claims} (signed : Edgetoken.mint params jti now = .ok claims) :
    claims.siteId = params.siteId := by
  unfold Edgetoken.mint at signed
  cases jti with
  | none => split_ifs at signed
  | some id =>
    split_ifs at signed
    · cases signed
      rfl
    · cases signed
      rfl

omit [Ring K] [LinearOrder K] [FloorRing K] in
private theorem quiet_promised (rest : Quiet moved) : Promised world moved := by
  cases moved with
  | revoking => exact rest.elim
  | changed => exact rest.elim
  | waiting | checking | comparing | signing | projecting | finished => trivial

/-- The world a step begins in: that of the last one, in a later second. -/
theorem Sound.clock (sound : Sound world) (later : ⌊world.now⌋ < ⌊s.clock⌋) :
    Sound { world with now := s.clock } := by
  refine ⟨fun token mem => ?_, sound.entries⟩
  obtain ⟨issued, read, past, whole⟩ := sound.minted token mem
  exact ⟨issued, read, past.trans later.le, whole⟩

/-- What a step gives: a sound world, its own promise, and the promises that outlast it. -/
structure Advance (world : Granted K) (position moved : Granting K) (after : Granted K) : Prop where
  sound : Sound after
  own : Promised after moved
  others : ∀ other, Promised world other →
    (∀ params seen, position = .signing params seen →
      ∀ commit, Revoking params.siteId commit other → commit ≤ seen) → Promised after other

private theorem siteKey_of {call : Revocation} (kind : call.kind = kindSite) : siteKey call.id = call.key := by
  unfold siteKey Revocation.key
  rw [kind]

private theorem validate_positive {call : Revocation} (valid : call.validate = .ok ()) : 0 < call.minIAT := by
  unfold Revocation.validate at valid
  split_ifs at valid with kind id low
  exact not_le.mp low

private theorem revoke_rises {call : Revocation} {stage : Stage} {error : Option Projection.RevokeError}
    {denylist stored : Denylist} (step : RevokeStep call denylist .served stage (.returned error) stored)
    (valid : call.validate = .ok ())
    (rising : stage = .writing → ∀ entry, denylist call.key = some entry → entry ≤ call.minIAT) :
    (∃ entry, stored call.key = some entry ∧ call.minIAT ≤ entry) ∧
      ∀ key entry, denylist key = some entry → ∃ later, stored key = some later ∧ entry ≤ later := by
  cases step with
  | rejected invalid =>
    rw [valid] at invalid
    cases invalid
  | covered _ covers =>
    obtain ⟨entry, found, late⟩ := (Option.any_eq_true _ _).mp covers
    exact ⟨⟨entry, found, of_decide_eq_true late⟩, fun key entry found => ⟨entry, found, le_rfl⟩⟩
  | writes =>
    refine ⟨⟨call.minIAT, Function.update_self _ _ _, le_rfl⟩, fun key entry found => ?_⟩
    by_cases own : key = call.key
    · subst own
      exact ⟨call.minIAT, Function.update_self _ _ _, rising rfl entry found⟩
    · exact ⟨entry, (Function.update_of_ne own _ _).trans found, le_rfl⟩

theorem effect_advances (effect : Effect s world position moved after) (sound : Sound world)
    (now : world.now = s.clock) (promised : Promised world position) (served : s.answer = .served)
    (whole : Exact ⌊s.clock⌋)
    (fresh : ∀ siteId commit, position = .projecting siteId [] commit →
      Older world siteId commit ⌊s.clock⌋)
    (valid : ∀ revoke commit, position = .revoking revoke commit → revoke.call.validate = .ok ())
    (rising : ∀ revoke commit, position = .revoking revoke commit → revoke.stage = .writing →
      ∀ entry, world.denylist revoke.call.key = some entry → entry ≤ revoke.call.minIAT) :
    Advance world position moved after := by
  have same : ∀ {denylist : Denylist}, denylist = world.denylist → ∀ key entry,
      world.denylist key = some entry → ∃ later, denylist key = some later ∧ entry ≤ later := by
    rintro _ rfl key entry found
    exact ⟨entry, found, le_rfl⟩
  cases effect with
  | quiet rest minted denylist clock =>
    refine ⟨⟨?_, ?_⟩, quiet_promised rest, fun other kept _ => kept.keep minted (same denylist)⟩
    · rw [minted, clock]
      exact sound.minted
    · rw [denylist]
      exact sound.entries
  | @signs params seen claims signed =>
    refine ⟨⟨fun token mem => ?_, sound.entries⟩, trivial, fun other kept current => ?_⟩
    · rcases List.mem_cons.mp mem with rfl | mem
      · exact ⟨⌊s.clock⌋, mint_issued signed, (congrArg Int.floor now).ge, whole⟩
      · exact sound.minted token mem
    · exact kept.sign fun commit past => current params seen rfl commit (mint_siteId signed ▸ past)
  | begins =>
    exact ⟨sound, ⟨rfl, whole, fun same => (by cases same), fresh _ _ rfl⟩, fun other kept _ => kept⟩
  | @reads call stage commit stored step =>
    rw [served] at step
    obtain ⟨kind, exact', -, older⟩ := promised
    cases step with
    | reads checked uncovered =>
      exact ⟨sound, ⟨kind, exact', fun _ => (validate_positive checked).le, older⟩, fun other kept _ => kept⟩
  | @returns call stage commit stored error step =>
    rw [served] at step
    obtain ⟨kind, exact', positive, older⟩ := promised
    have checked : call.validate = .ok () := valid ⟨call, stage⟩ commit rfl
    have higher : stage = .writing → ∀ entry, world.denylist call.key = some entry → entry ≤ call.minIAT :=
      rising ⟨call, stage⟩ commit rfl
    obtain ⟨⟨entry, found, late⟩, rises⟩ := revoke_rises step checked higher
    have key : siteKey call.id = call.key := siteKey_of kind
    refine ⟨⟨sound.minted, fun other entry found => ?_⟩, ⟨entry, key ▸ found, older.mono late⟩,
      fun other kept _ => kept.keep rfl rises⟩
    cases step with
    | rejected => exact sound.entries other entry found
    | covered => exact sound.entries other entry found
    | writes =>
      change Function.update world.denylist call.key (some call.minIAT) other = some entry at found
      by_cases own : other = call.key
      · rw [own, Function.update_self] at found
        cases found
        exact ⟨positive rfl, exact'⟩
      · rw [Function.update_of_ne own] at found
        exact sound.entries other entry found

theorem perform_kept (config : Config) (verify : Text → Text → Bool) (state : Running κ K)
    (act : Act κ (Surroundings K)) (kept : Kept state) (unfailing : Unfailing state act)
    (timely : Timely state act) : Kept (perform (grants config verify) state act) := by
  cases ran : grants config verify act.2 (state.position act.1) state.store with
  | none =>
    rw [perform_none ran]
    exact kept
  | some result =>
    obtain ⟨moved, after⟩ := result
    rw [perform_some ran]
    unfold grants at ran
    split_ifs at ran with later
    have before : ∀ call, Promised { state.store with now := act.2.clock } (state.position call) :=
      fun call => (kept.2 call).keep rfl fun key entry found => ⟨entry, found, le_rfl⟩
    have advance : Advance { state.store with now := act.2.clock } (state.position act.1) moved after :=
      effect_advances (grantStep_effect ran) (kept.1.clock later) rfl (before act.1) unfailing.served
        unfailing.whole (fun siteId commit _ => kept.1.older later siteId commit) unfailing.valid timely.rising
    refine ⟨advance.sound, fun call => ?_⟩
    simp only
    by_cases own : call = act.1
    · rw [own, Function.update_self]
      exact advance.own
    · rw [Function.update_of_ne own]
      refine advance.others _ (before call) fun params seen signing commit past => ?_
      exact timely.current params seen signing call commit past

omit [DecidableEq κ] in
theorem Kept.cut {state : Running κ K} (kept : Kept state) : Cut state := by
  intro call siteId commit returned token mem own seen text s request route url world found reads
  have promised := kept.2 call
  rw [returned] at promised
  obtain ⟨entry, stored, older⟩ := promised
  obtain ⟨issued, read, before, whole⟩ := older token mem own seen
  obtain ⟨positive, fits⟩ := kept.1.entries _ _ stored
  subst own
  have concerns : Proofs.HardRevocation.Concerns (fun _ => route.orgId.text)
      ⟨kindSite, token.claims.siteId, 0⟩ token.claims := .inr (.inl ⟨rfl, rfl⟩)
  exact worker_rejects concerns read whole stored positive fits before reads rfl

/-- Old grants are cut off in runs in which no token is signed for a grant that is
older than a change which has begun to revoke. -/
theorem old_grants_cut (config : Config) (verify : Text → Text → Bool) (start : Running κ K)
    (sound : Sound start.store) (waiting : ∀ call, ∃ request, start.position call = .waiting request)
    (schedule : List (Act κ (Surroundings K)))
    (meets : Meets (grants config verify) (fun state act => Unfailing state act ∧ Timely state act) schedule start) :
    Cut (performAll (grants config verify) schedule start) := by
  have kept : Kept start := by
    refine ⟨sound, fun call => ?_⟩
    obtain ⟨request, same⟩ := waiting call
    rw [same]
    trivial
  exact (keeps Kept (fun state act kept fits => perform_kept config verify state act kept fits.1 fits.2)
    kept meets).cut

/-! ### A password that is replaced -/

/-- A site with the password `old`. -/
def doorDatabase : Database where
  organizations := .singleton ⟨membersId, ['a']⟩
  orgMeta := .singleton ⟨membersId, "free".toList, true, "org_only"⟩
  sites := .singleton ⟨membersId, membersId, ['b'], .password, some membersId⟩
  siteVersions := .singleton ⟨membersId, membersId, membersId, .ready, none⟩
  policies := .singleton ⟨membersId, membersId, .password, some "old".toList, none, false⟩
  allowlist := .empty
  hostRoutes := .singleton ⟨blogHost, membersId, membersId, .canonical, none, none⟩
  chatLogs := .empty
  domains := .empty

/-- A visitor has the old password, and an admin replaces it. -/
def doorRequests : Nat → GrantRequest
  | 0 => .authzPassword blogHost "old".toList
  | _ => .setSiteAccess ⟨membersId, ['u']⟩ ⟨membersId, "password", "new".toList, none, false⟩

def sameText (hash password : Text) : Bool := decide (hash = password)

def doorStart : Running Nat ℤ :=
  ⟨⟨0, doorDatabase, fun _ => 0, fun _ => none, fun _ => none, []⟩, fun call => .waiting (doorRequests call)⟩

def inSecond (clock : ℤ) : Surroundings ℤ := ⟨clock, .served, fun _ _ => true, true, some ['n'], some ['j']⟩

/-- The hash is read before the change, and compared after it has returned. -/
def lateSchedule : List (Act Nat (Surroundings ℤ)) :=
  [(0, inSecond 1), (1, inSecond 2), (1, inSecond 3), (1, inSecond 4), (1, inSecond 5), (1, inSecond 6),
    (0, inSecond 7), (0, inSecond 8)]

def lateClaims : Edgetoken.Claims :=
  { issuer := Edgetoken.issuer, subject := ['n'], audience := [blogHost], expiresAt := some 908
    issuedAt := some 8, id := ['j'], siteId := membersId, mode := "password".toList }

private theorem late_run :
    let state := performAll (grants blogConfig sameText) lateSchedule doorStart
    state.position 1 = .changed membersId 1 ∧ state.store.minted = [⟨lateClaims, 0⟩] ∧
      state.store.denylist (siteKey membersId) = some 4 :=
  ⟨rfl, rfl, rfl⟩

private theorem unfailing_in {state : Running Nat ℤ} {call : Nat} {clock : ℤ} (low : 0 ≤ clock) (high : clock ≤ 8)
    (valid : ∀ revoke commit, state.position call = .revoking revoke commit → revoke.call.validate = .ok ()) :
    Unfailing state (call, inSecond clock) := by
  refine ⟨rfl, valid, ?_⟩
  change clock.natAbs < 2 ^ 53
  omega

private theorem late_unfailing : Meets (grants blogConfig sameText) Unfailing lateSchedule doorStart := by
  refine ⟨?_, ?_, ?_, ?_, ?_, ?_, ?_, ?_, trivial⟩
  · exact unfailing_in (by decide) (by decide) fun _ _ same => by cases same
  · exact unfailing_in (by decide) (by decide) fun _ _ same => by cases same
  · exact unfailing_in (by decide) (by decide) fun _ _ same => by cases same
  · exact unfailing_in (by decide) (by decide) fun _ _ same => by cases same
  · exact unfailing_in (by decide) (by decide) fun _ _ same => by cases same; rfl
  · exact unfailing_in (by decide) (by decide) fun _ _ same => by cases same; rfl
  · exact unfailing_in (by decide) (by decide) fun _ _ same => by cases same
  · exact unfailing_in (by decide) (by decide) fun _ _ same => by cases same

/-- A Worker that sees the entry and verifies the late token. -/
def doorSetting : Edge.Setting :=
  { rt := { jsonParse := fun text => (JsonText.parse text).map Doc.value, dateParse := fun _ => none
            localeLe := fun _ _ => true, urlParse := fun _ => none }
    jose := { importJWK := fun _ => true, jwtVerify := fun _ _ _ => some lateClaims.payload }
    pages := default
    env :=
      { routes := fun key =>
          .ok (if key = siteKey membersId then some (Projection.entryText 4) else none)
        bucket := fun _ => none, edgeJwksUrl := none, appAuthzUrl := none, rateLimiter := none
        limits := none, revoked := none, rateLimitMax := none, rateLimitWindowSeconds := none
        attributionBanner := none }
    cache := true, fetchImpl := fun _ => none, now := 0, gateNow := 0 }

def doorRoute : Edge.RouteValue := { membersRoute with accessMode := .password }

def doorRequest : Edge.Request := ⟨"GET", [("Cookie", "__Host-edge=t".toList)]⟩

def doorWorld : Edge.World :=
  { limits := fun _ => none, cache := fun _ => none
    jwksCache := fun _ => some { keys := [("kid".toList, .null)], expiresAt := 1 } }

def doorClaims : Edge.EdgeClaims :=
  { sub := "n", aud := membersUrl.host, siteId := membersId, mode := "password", iat := 8 }

private theorem door_reads {denylist : Denylist} (stored : denylist (siteKey membersId) = some 4) :
    WorkerReads "t".toList lateClaims doorSetting denylist (siteKey membersId) := by
  refine ⟨fun _ => rfl, fun _ _ payload _ signed name value _ found => ?_, fun raw read => ?_⟩
  · cases signed
    exact found
  · have entry : doorSetting.env.routes (siteKey membersId) = .ok (some (Projection.entryText 4)) :=
      congrArg Except.ok (if_pos rfl)
    change doorSetting.env.routes (siteKey membersId) = .ok raw at read
    rw [entry] at read
    cases read
    rw [stored, Option.map_some]

private theorem door_admits : Admitted doorSetting doorRequest doorRoute membersUrl doorWorld "t".toList doorClaims where
  cookie := by decide
  verified := rfl
  unrevoked := by decide +kernel

private theorem door_sound : Sound doorStart.store :=
  ⟨fun _ mem => (by cases mem), fun _ _ found => (by cases found)⟩

/-- A token signed for the old password, after the change has returned, is accepted. -/
theorem late_grant_accepted : ¬ ∀ (config : Config) (verify : Text → Text → Bool) (start : Running Nat ℤ),
    Sound start.store → (∀ call, ∃ request, start.position call = .waiting request) →
    ∀ schedule : List (Act Nat (Surroundings ℤ)), Meets (grants config verify) Unfailing schedule start →
      Cut (performAll (grants config verify) schedule start) := by
  intro cut
  obtain ⟨changed, minted, stored⟩ := late_run
  have here := cut blogConfig sameText doorStart door_sound (fun call => ⟨doorRequests call, rfl⟩) lateSchedule
    late_unfailing
  have listed : ⟨lateClaims, 0⟩ ∈ (performAll (grants blogConfig sameText) lateSchedule doorStart).store.minted := by
    rw [minted]
    exact List.mem_singleton_self _
  exact here 1 membersId 1 changed ⟨lateClaims, 0⟩ listed rfl Nat.zero_lt_one "t".toList doorSetting doorRequest
    doorRoute membersUrl doorWorld doorClaims (door_reads stored) door_admits

/-- The token is signed before the change revokes. -/
def earlySchedule : List (Act Nat (Surroundings ℤ)) :=
  [(0, inSecond 1), (0, inSecond 2), (0, inSecond 3), (1, inSecond 4), (1, inSecond 5), (1, inSecond 6),
    (1, inSecond 7), (1, inSecond 8)]

private theorem timely_change {state : Running Nat ℤ} {call : Nat} {clock : ℤ}
    (quiet : ∀ params seen, state.position call ≠ .signing params seen)
    (empty : ∀ key, state.store.denylist key = none) : Timely state (call, inSecond clock) := by
  refine ⟨fun params seen signing => absurd signing (quiet params seen), fun _ _ _ _ entry found => ?_⟩
  rw [empty] at found
  cases found

private theorem early_timely : Meets (grants blogConfig sameText)
    (fun state act => Unfailing state act ∧ Timely state act) earlySchedule doorStart := by
  refine meets_and.mpr ⟨⟨?_, ?_, ?_, ?_, ?_, ?_, ?_, ?_, trivial⟩, ⟨?_, ?_, ?_, ?_, ?_, ?_, ?_, ?_, trivial⟩⟩
  · exact unfailing_in (by decide) (by decide) fun _ _ same => by cases same
  · exact unfailing_in (by decide) (by decide) fun _ _ same => by cases same
  · exact unfailing_in (by decide) (by decide) fun _ _ same => by cases same
  · exact unfailing_in (by decide) (by decide) fun _ _ same => by cases same
  · exact unfailing_in (by decide) (by decide) fun _ _ same => by cases same
  · exact unfailing_in (by decide) (by decide) fun _ _ same => by cases same
  · exact unfailing_in (by decide) (by decide) fun _ _ same => by cases same; rfl
  · exact unfailing_in (by decide) (by decide) fun _ _ same => by cases same; rfl
  · exact timely_change (fun _ _ same => by cases same) fun _ => rfl
  · exact timely_change (fun _ _ same => by cases same) fun _ => rfl
  · refine ⟨fun params seen _ call commit past => ?_, fun _ _ same => by cases same⟩
    -- Nobody else has taken a step yet.
    by_cases own : call = 0
    · subst own
      exact past.elim
    · have first : (perform (grants blogConfig sameText) doorStart (0, inSecond 1)).position call =
          .waiting (doorRequests call) := perform_other own
      have second : (perform (grants blogConfig sameText) (perform (grants blogConfig sameText) doorStart
          (0, inSecond 1)) (0, inSecond 2)).position call = .waiting (doorRequests call) :=
        (perform_other own).trans first
      rw [second] at past
      exact past.elim
  · exact timely_change (fun _ _ same => by cases same) fun _ => rfl
  · exact timely_change (fun _ _ same => by cases same) fun _ => rfl
  · exact timely_change (fun _ _ same => by cases same) fun _ => rfl
  · exact timely_change (fun _ _ same => by cases same) fun _ => rfl
  · exact timely_change (fun _ _ same => by cases same) fun _ => rfl

theorem old_grants_cut_door :
    Cut (performAll (grants blogConfig sameText) earlySchedule doorStart) ∧
      (performAll (grants blogConfig sameText) earlySchedule doorStart).position 1 = .changed membersId 1 ∧
      (performAll (grants blogConfig sameText) earlySchedule doorStart).store.minted.map GrantedToken.seen = [0] :=
  ⟨old_grants_cut blogConfig sameText doorStart door_sound (fun call => ⟨doorRequests call, rfl⟩) earlySchedule
    early_timely, rfl, rfl⟩

end Dropway.Api.OldGrants
