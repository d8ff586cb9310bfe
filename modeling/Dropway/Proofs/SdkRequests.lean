import Dropway.Proofs.SdkDeploy

/-! How often a deploy of the SDK asks. What is not safe to repeat is sent once, an upload
and the finalize only so many times, and nothing once the deploy is aborted. -/

namespace Dropway.Sdk
open Lib Api

variable {d : Deployment} {org : OrgStorage} {w later : World}

/-- A request that was sent `count` times, and will not be sent more than `limit + 1` times. -/
def Fetch.Fits {β : Type} (limit count : Nat) : Fetch β → Prop
  | .ready n => n ≤ limit ∧ count ≤ n
  | .waiting n _ => n ≤ limit ∧ count ≤ n + 1
  | .sleeping n => n < limit ∧ count ≤ n + 1

def Progress.Fits {β : Type} (limit count : Nat) : Progress β → Prop
  | .still fetch => fetch.Fits limit count
  | .ended _ => True

theorem Fetch.Fits.most {β : Type} {limit count : Nat} {fetch : Fetch β} (fits : fetch.Fits limit count) :
    count ≤ limit + 1 := by
  cases fetch with
  | ready n => exact Nat.le_trans fits.2 (Nat.le_succ_of_le fits.1)
  | waiting n reply => exact Nat.le_trans fits.2 (Nat.succ_le_succ fits.1)
  | sleeping n => exact Nat.le_trans fits.2 (Nat.le_succ_of_le fits.1)

/-- A turn sends the request at most once, and no other. -/
theorem Turned.fits {β : Type} {maxRetries : Nat} {idempotent aborted : Bool} {fetch : Fetch β} {turn : Turn β}
    {progress : Progress β} {sent : List Request} (own : Request) (mine : Request → Bool)
    (turned : Turned maxRetries idempotent aborted fetch turn progress) (named : mine own = true)
    (fits : fetch.Fits (if idempotent then maxRetries else 0) (sent.countP mine)) :
    progress.Fits (if idempotent then maxRetries else 0) ((progress.logged turn own sent).countP mine) ∧
      (progress.logged turn own sent).countP mine ≤ (if idempotent then maxRetries else 0) + 1 := by
  have most := fits.most
  cases turned with
  | stops | givesUp | delivers => exact ⟨trivial, most⟩
  | sends =>
    have once : (sent ++ [own]).countP mine = sent.countP mine + 1 := by
      rw [List.countP_append, List.countP_singleton, if_pos named]
    obtain ⟨within, spent⟩ := fits
    refine ⟨⟨within, ?_⟩, ?_⟩
    · exact once.trans_le (Nat.succ_le_succ spent)
    · exact once.trans_le (Nat.succ_le_succ (Nat.le_trans spent within))
  | answers => exact ⟨fits, most⟩
  | @backsOff n _ turn again left failed =>
    have same : (Progress.still (.sleeping n) : Progress β).logged turn own sent = sent := by
      rcases failed with rfl | rfl
      · rfl
      · rfl
    rw [same]
    refine ⟨⟨?_, fits.2⟩, most⟩
    rw [if_pos again]
    exact left
  | wakes => exact ⟨⟨fits.1, fits.2⟩, most⟩

theorem logged_other {β : Type} {turn : Turn β} {own : Request} {sent : List Request} {progress : Progress β}
    {mine : Request → Bool} (other : mine own = false) :
    (progress.logged turn own sent).countP mine = sent.countP mine := by
  unfold Progress.logged
  split
  · split
    · rw [List.countP_append, List.countP_singleton, other]
      rfl
    · rfl
  · rfl

/-! ### The phases -/

theorem afterPrepare_moves (d : Deployment) (w : World) (turn : Turn PrepareResponse) (progress : Progress PrepareResponse) :
    (d.afterPrepare w turn progress).sent = progress.logged turn .prepare w.sent ∧
      (d.afterPrepare w turn progress).aborted = w.aborted ∧
      ((∃ fetch, progress = .still fetch ∧ (d.afterPrepare w turn progress).phase = .preparing fetch ∧
          (d.afterPrepare w turn progress).pool = w.pool) ∨
        (∃ prep, (d.afterPrepare w turn progress).phase = .uploading ∧
          (d.afterPrepare w turn progress).pool = d.startUploads prep) ∨
        ∃ failure, (d.afterPrepare w turn progress).phase = .rejected failure ∧
          (d.afterPrepare w turn progress).pool = w.pool) := by
  unfold Deployment.afterPrepare
  cases progress with
  | still fetch => exact ⟨rfl, rfl, .inl ⟨fetch, rfl, rfl, rfl⟩⟩
  | ended outcome =>
    simp only
    split
    · exact ⟨rfl, rfl, .inr (.inl ⟨_, rfl, rfl⟩)⟩
    · exact ⟨rfl, rfl, .inr (.inr ⟨_, rfl, rfl⟩)⟩

theorem afterFinalize_moves (d : Deployment) (w : World) (turn : Turn FinalizeResponse) (progress : Progress FinalizeResponse) :
    (d.afterFinalize w turn progress).sent = progress.logged turn .finalize w.sent ∧
      (d.afterFinalize w turn progress).aborted = w.aborted ∧ (d.afterFinalize w turn progress).pool = w.pool ∧
      ((∃ fetch, progress = .still fetch ∧ (d.afterFinalize w turn progress).phase = .finalizing fetch) ∨
        (∃ result, (d.afterFinalize w turn progress).phase = .resolved result) ∨
        (∃ fin, (d.afterFinalize w turn progress).phase = .publishing fin (.ready 0) ∧ d.publish ≠ some false) ∨
        ∃ failure, (d.afterFinalize w turn progress).phase = .rejected failure) := by
  unfold Deployment.afterFinalize
  cases progress with
  | still fetch => exact ⟨rfl, rfl, rfl, .inl ⟨fetch, rfl, rfl⟩⟩
  | ended outcome =>
    simp only
    split
    · split
      · exact ⟨rfl, rfl, rfl, .inr (.inl ⟨_, rfl⟩)⟩
      · exact ⟨rfl, rfl, rfl, .inr (.inr (.inl ⟨_, rfl, ‹_›⟩))⟩
    · exact ⟨rfl, rfl, rfl, .inr (.inr (.inr ⟨_, rfl⟩))⟩

theorem afterPublish_moves (w : World) (fin : FinalizeResponse) (turn : Turn PublishResponse) (progress : Progress PublishResponse) :
    (afterPublish w fin turn progress).sent = progress.logged turn (.publish fin.versionId) w.sent ∧
      (afterPublish w fin turn progress).aborted = w.aborted ∧ (afterPublish w fin turn progress).pool = w.pool ∧
      ((∃ fetch, progress = .still fetch ∧ (afterPublish w fin turn progress).phase = .publishing fin fetch) ∨
        (∃ result, (afterPublish w fin turn progress).phase = .resolved result) ∨
        ∃ failure, (afterPublish w fin turn progress).phase = .rejected failure) := by
  unfold afterPublish
  cases progress with
  | still fetch => exact ⟨rfl, rfl, rfl, .inl ⟨fetch, rfl, rfl⟩⟩
  | ended outcome =>
    simp only
    split
    · exact ⟨rfl, rfl, rfl, .inr (.inl ⟨_, rfl⟩)⟩
    · exact ⟨rfl, rfl, rfl, .inr (.inr ⟨_, rfl⟩)⟩

/-! ### Nothing after an abort -/

private theorem aborted_logged {β : Type} {maxRetries : Nat} {idempotent : Bool} {fetch : Fetch β} {turn : Turn β}
    {progress : Progress β} (own : Request) (sent : List Request)
    (turned : Turned maxRetries idempotent true fetch turn progress) : progress.logged turn own sent = sent := by
  cases turned with
  | stops | answers | delivers | givesUp | wakes => rfl
  | sends running => cases running
  | backsOff _ _ failed =>
    rcases failed with rfl | rfl
    · rfl
    · rfl

private theorem aborted_step (step : World.Step d w later) (aborted : w.aborted = true) :
    later.aborted = true ∧ later.sent = w.sent := by
  cases step with
  | abort => exact ⟨rfl, rfl⟩
  | elsewhere | take | joined | fell | arrive | verify => exact ⟨aborted, rfl⟩
  | @prepare fetch turn progress phase honest turned =>
    obtain ⟨sent, same, -⟩ := afterPrepare_moves d w turn progress
    rw [aborted] at turned same
    exact ⟨same, sent.trans (aborted_logged _ _ (turn_cases turned))⟩
  | put putting turned =>
    rw [aborted] at turned
    exact ⟨aborted, aborted_logged _ _ (turn_cases turned)⟩
  | @finalize fetch turn progress phase honest turned =>
    obtain ⟨sent, same, -⟩ := afterFinalize_moves d w turn progress
    rw [aborted] at turned same
    exact ⟨same, sent.trans (aborted_logged _ _ (turn_cases turned))⟩
  | @publish fin fetch turn progress phase turned =>
    obtain ⟨sent, same, -⟩ := afterPublish_moves w fin turn progress
    rw [aborted] at turned same
    exact ⟨same, sent.trans (aborted_logged _ _ (turn_cases turned))⟩

/-- Once the deploy is aborted no request is sent, by the deploy or by a worker that it left behind. -/
theorem abort_silences (aborted : w.aborted = true) (on : Relation.ReflTransGen (World.Step d) w later) :
    later.sent = w.sent := by
  have kept : later.aborted = true ∧ later.sent = w.sent := by
    induction on with
    | refl => exact ⟨aborted, rfl⟩
    | tail _ step ih =>
      obtain ⟨still, same⟩ := aborted_step step ih.1
      exact ⟨still, same.trans ih.2⟩
  exact kept.2

/-- The page's deploy is aborted before its finalize. -/
theorem page_deploy_silent : ∃ later, Relation.ReflTransGen (World.Step pageDeploy)
    { pageHandled (.finalizing (.ready 0)) [] with aborted := true, sent := pageSent } later ∧
      later.phase = .rejected .aborted ∧ later.sent = pageSent := by
  have on : Relation.ReflTransGen (World.Step pageDeploy)
      { pageHandled (.finalizing (.ready 0)) [] with aborted := true, sent := pageSent }
      { pageHandled (.rejected .aborted) [] with aborted := true, sent := pageSent } :=
    .single (@World.Step.finalize pageDeploy _ (.ready 0) .send (.ended (.error .aborted)) rfl nofun rfl)
  exact ⟨_, on, rfl, abort_silences rfl on⟩

/-! ### How often -/

def Request.isPrepare : Request → Bool
  | .prepare => true
  | _ => false

def Request.isFinalize : Request → Bool
  | .finalize => true
  | _ => false

def Request.isPublish : Request → Bool
  | .publish _ => true
  | _ => false

def Request.isPut (slot : Nat) : Request → Bool
  | .put own _ => own == slot
  | _ => false

def Worker.slot? : Worker → Option Nat
  | .putting slot _ _ _ _ => some slot
  | _ => none

/-- Each slot belongs to one worker at most, and is asked for by no other. -/
structure Pool.Counted (d : Deployment) (sent : List Request) (pool : Pool) : Prop where
  puts : ∀ slot, sent.countP (Request.isPut slot) ≤ d.maxRetries + 1
  putting : ∀ (i slot : Nat) (sha url : Text) (bytes : Bytes) (fetch : Fetch Unit),
    pool.workers[i]? = some (.putting slot sha url bytes fetch) →
    slot < pool.index ∧ fetch.Fits d.maxRetries (sent.countP (Request.isPut slot))
  single : ∀ (i j slot : Nat) (one other : Worker), pool.workers[i]? = some one → pool.workers[j]? = some other →
    one.slot? = some slot → other.slot? = some slot → i = j
  ahead : ∀ slot, pool.index ≤ slot → sent.countP (Request.isPut slot) = 0
  crew : pool.workers.length ≤ max 1 (d.concurrency.getD 8)

/-- Before the finalize. -/
def Phase.early : Phase → Bool
  | .preparing _ | .uploading => true
  | _ => false

def Phase.unpublished : Phase → Bool
  | .preparing _ | .uploading | .finalizing _ => true
  | _ => false

structure World.Counted (d : Deployment) (w : World) : Prop where
  pool : w.pool.Counted d w.sent
  prepares : w.sent.countP Request.isPrepare ≤ 1
  preparing : ∀ fetch, w.phase = .preparing fetch →
    fetch.Fits 0 (w.sent.countP Request.isPrepare) ∧ w.pool.index = 0 ∧ w.pool.workers = []
  finalizes : w.sent.countP Request.isFinalize ≤ d.maxRetries + 1
  finalizing : ∀ fetch, w.phase = .finalizing fetch → fetch.Fits d.maxRetries (w.sent.countP Request.isFinalize)
  early : w.phase.early = true → w.sent.countP Request.isFinalize = 0
  publishes : w.sent.countP Request.isPublish ≤ 1
  publishing : ∀ fin fetch, w.phase = .publishing fin fetch →
    fetch.Fits 0 (w.sent.countP Request.isPublish) ∧ d.publish ≠ some false
  unpublished : w.phase.unpublished = true → w.sent.countP Request.isPublish = 0
  unwanted : d.publish = some false → w.sent.countP Request.isPublish = 0

theorem start_counted (org : OrgStorage) : (World.start org).Counted d where
  pool := ⟨fun _ => Nat.zero_le _, nofun, nofun, fun _ _ => rfl, Nat.zero_le _⟩
  prepares := Nat.zero_le _
  preparing := by
    rintro _ ⟨⟩
    exact ⟨⟨Nat.le_refl _, Nat.le_refl _⟩, rfl, rfl⟩
  finalizes := Nat.zero_le _
  finalizing := nofun
  early := fun _ => rfl
  publishes := Nat.zero_le _
  publishing := nofun
  unpublished := fun _ => rfl
  unwanted := fun _ => rfl

/-- The uploads do not see the other requests. -/
private theorem Pool.Counted.congr {pool : Pool} {sent more : List Request} (counted : pool.Counted d sent)
    (same : ∀ slot, more.countP (Request.isPut slot) = sent.countP (Request.isPut slot)) : pool.Counted d more where
  puts := fun slot => (same slot).trans_le (counted.puts slot)
  putting := by
    intro i slot sha url bytes fetch here
    rw [same slot]
    exact counted.putting i slot sha url bytes fetch here
  single := counted.single
  ahead := fun slot beyond => (same slot).trans (counted.ahead slot beyond)
  crew := counted.crew

private theorem World.Counted.prepare (counted : w.Counted d) {fetch : Fetch PrepareResponse} {turn : Turn PrepareResponse}
    {progress : Progress PrepareResponse} (phase : w.phase = .preparing fetch)
    (turned : Turned d.maxRetries false w.aborted fetch turn progress) : (d.afterPrepare w turn progress).Counted d := by
  obtain ⟨sent, -, moves⟩ := afterPrepare_moves d w turn progress
  obtain ⟨fits, start, idle⟩ := counted.preparing fetch phase
  obtain ⟨still, most⟩ := turned.fits .prepare Request.isPrepare rfl fits
  rw [← sent] at still most
  have finalizes : (d.afterPrepare w turn progress).sent.countP Request.isFinalize = 0 := by
    rw [sent, logged_other rfl, counted.early (congrArg Phase.early phase)]
  have publishes : (d.afterPrepare w turn progress).sent.countP Request.isPublish = 0 := by
    rw [sent, logged_other rfl, counted.unpublished (congrArg Phase.unpublished phase)]
  have puts : ∀ slot, (d.afterPrepare w turn progress).sent.countP (Request.isPut slot) = w.sent.countP (Request.isPut slot) := by
    intro slot
    rw [sent, logged_other rfl]
  have pool : (d.afterPrepare w turn progress).pool.Counted d (d.afterPrepare w turn progress).sent := by
    rcases moves with ⟨_, -, -, same⟩ | ⟨prep, -, same⟩ | ⟨_, -, same⟩
    · rw [same]
      exact counted.pool.congr puts
    · have none : ∀ slot, (d.afterPrepare w turn progress).sent.countP (Request.isPut slot) = 0 :=
        fun slot => (puts slot).trans (counted.pool.ahead slot (start.trans_le (Nat.zero_le _)))
      have looping {i : Nat} {worker : Worker} (here : (d.startUploads prep).workers[i]? = some worker) : worker = .looping :=
        List.eq_of_mem_replicate (List.mem_of_getElem? here)
      rw [same]
      refine ⟨fun slot => (none slot).trans_le (Nat.zero_le _), fun i slot sha url bytes fetch here => ?_,
        fun i j slot one other here _ named => ?_, fun slot _ => none slot, ?_⟩
      · cases looping here
      · rw [looping here] at named
        cases named
      · rw [Deployment.startUploads, List.length_replicate]
        exact Nat.min_le_left _ _
    · rw [same]
      exact counted.pool.congr puts
  refine ⟨pool, most, ?_, finalizes.trans_le (Nat.zero_le _), ?_, fun _ => finalizes, publishes.trans_le (Nat.zero_le _), ?_,
    fun _ => publishes, fun _ => publishes⟩
  · intro next same
    rcases moves with ⟨fetch', rfl, at', kept⟩ | ⟨prep, at', -⟩ | ⟨failure, at', -⟩
    · rw [at'] at same
      cases same
      refine ⟨still, ?_⟩
      rw [kept]
      exact ⟨start, idle⟩
    · rw [at'] at same
      cases same
    · rw [at'] at same
      cases same
  · intro next same
    rcases moves with ⟨_, -, at', -⟩ | ⟨_, at', -⟩ | ⟨_, at', -⟩
    all_goals
      rw [at'] at same
      cases same
  · intro fin next same
    rcases moves with ⟨_, -, at', -⟩ | ⟨_, at', -⟩ | ⟨_, at', -⟩
    all_goals
      rw [at'] at same
      cases same

private theorem World.Counted.finalize (counted : w.Counted d) {fetch : Fetch FinalizeResponse}
    {turn : Turn FinalizeResponse} {progress : Progress FinalizeResponse} (phase : w.phase = .finalizing fetch)
    (turned : Turned d.maxRetries true w.aborted fetch turn progress) : (d.afterFinalize w turn progress).Counted d := by
  obtain ⟨sent, -, same, moves⟩ := afterFinalize_moves d w turn progress
  obtain ⟨still, most⟩ := turned.fits .finalize Request.isFinalize rfl (counted.finalizing fetch phase)
  rw [← sent] at still most
  have prepares : (d.afterFinalize w turn progress).sent.countP Request.isPrepare ≤ 1 := by
    rw [sent, logged_other rfl]
    exact counted.prepares
  have publishes : (d.afterFinalize w turn progress).sent.countP Request.isPublish = 0 := by
    rw [sent, logged_other rfl, counted.unpublished (congrArg Phase.unpublished phase)]
  have pool : (d.afterFinalize w turn progress).pool.Counted d (d.afterFinalize w turn progress).sent := by
    rw [same, sent]
    exact counted.pool.congr fun slot => logged_other rfl
  refine ⟨pool, prepares, ?_, most, ?_, ?_, publishes.trans_le (Nat.zero_le _), ?_, fun _ => publishes, fun _ => publishes⟩
  · intro next here
    rcases moves with ⟨_, -, at'⟩ | ⟨_, at'⟩ | ⟨_, at', -⟩ | ⟨_, at'⟩
    all_goals
      rw [at'] at here
      cases here
  · intro next here
    rcases moves with ⟨_, rfl, at'⟩ | ⟨_, at'⟩ | ⟨_, at', -⟩ | ⟨_, at'⟩
    all_goals
      rw [at'] at here
      cases here
    exact still
  · intro here
    rcases moves with ⟨_, -, at'⟩ | ⟨_, at'⟩ | ⟨_, at', -⟩ | ⟨_, at'⟩
    all_goals
      rw [at'] at here
      cases here
  · intro fin next here
    rcases moves with ⟨_, -, at'⟩ | ⟨_, at'⟩ | ⟨_, at', wanted⟩ | ⟨_, at'⟩
    all_goals
      rw [at'] at here
      cases here
    rw [publishes]
    exact ⟨⟨Nat.le_refl _, Nat.le_refl _⟩, wanted⟩

private theorem World.Counted.publish (counted : w.Counted d) {fin : FinalizeResponse} {fetch : Fetch PublishResponse}
    {turn : Turn PublishResponse} {progress : Progress PublishResponse} (phase : w.phase = .publishing fin fetch)
    (turned : Turned d.maxRetries false w.aborted fetch turn progress) : (afterPublish w fin turn progress).Counted d := by
  obtain ⟨sent, -, same, moves⟩ := afterPublish_moves w fin turn progress
  obtain ⟨fits, wanted⟩ := counted.publishing fin fetch phase
  obtain ⟨still, most⟩ := turned.fits (.publish fin.versionId) Request.isPublish rfl fits
  rw [← sent] at still most
  have prepares : (afterPublish w fin turn progress).sent.countP Request.isPrepare ≤ 1 := by
    rw [sent, logged_other rfl]
    exact counted.prepares
  have finalizes : (afterPublish w fin turn progress).sent.countP Request.isFinalize ≤ d.maxRetries + 1 := by
    rw [sent, logged_other rfl]
    exact counted.finalizes
  have pool : (afterPublish w fin turn progress).pool.Counted d (afterPublish w fin turn progress).sent := by
    rw [same, sent]
    exact counted.pool.congr fun slot => logged_other rfl
  refine ⟨pool, prepares, ?_, finalizes, ?_, ?_, most, ?_, ?_, fun never => absurd never wanted⟩
  · intro next here
    rcases moves with ⟨_, -, at'⟩ | ⟨_, at'⟩ | ⟨_, at'⟩
    all_goals
      rw [at'] at here
      cases here
  · intro next here
    rcases moves with ⟨_, -, at'⟩ | ⟨_, at'⟩ | ⟨_, at'⟩
    all_goals
      rw [at'] at here
      cases here
  · intro here
    rcases moves with ⟨_, -, at'⟩ | ⟨_, at'⟩ | ⟨_, at'⟩
    all_goals
      rw [at'] at here
      cases here
  · intro fin' next here
    rcases moves with ⟨_, rfl, at'⟩ | ⟨_, at'⟩ | ⟨_, at'⟩
    all_goals
      rw [at'] at here
      cases here
    exact ⟨still, wanted⟩
  · intro here
    rcases moves with ⟨_, -, at'⟩ | ⟨_, at'⟩ | ⟨_, at'⟩
    all_goals
      rw [at'] at here
      cases here

/-- A worker at `i` that takes a slot which is its own or is new. -/
private theorem Pool.Counted.set {pool : Pool} {sent more : List Request} (counted : pool.Counted d sent) {i : Nat}
    (index : Nat) {old new : Worker} (here : pool.workers[i]? = some old) (further : pool.index ≤ index)
    (others : ∀ slot, new.slot? ≠ some slot → old.slot? ≠ some slot →
      more.countP (Request.isPut slot) = sent.countP (Request.isPut slot))
    (most : ∀ slot, more.countP (Request.isPut slot) ≤ d.maxRetries + 1)
    (fits : ∀ slot sha url bytes fetch, new = .putting slot sha url bytes fetch →
      slot < index ∧ fetch.Fits d.maxRetries (more.countP (Request.isPut slot)))
    (fresh : ∀ slot, new.slot? = some slot → old.slot? = some slot ∨ pool.index ≤ slot)
    (ahead : ∀ slot, index ≤ slot → more.countP (Request.isPut slot) = 0) :
    ({ pool with index, workers := pool.workers.set i new } : Pool).Counted d more where
  puts := most
  putting := by
    intro j slot sha url bytes fetch there
    rw [List.getElem?_set] at there
    split at there
    · split at there
      · exact fits slot sha url bytes fetch (Option.some_inj.mp there)
      · cases there
    · rename_i apart
      obtain ⟨below, spent⟩ := counted.putting j slot sha url bytes fetch there
      have notOld : old.slot? ≠ some slot := fun same => apart (counted.single i j slot old _ here there same rfl)
      have notNew : new.slot? ≠ some slot := by
        intro same
        rcases fresh slot same with own | late
        · exact notOld own
        · exact absurd below (Nat.not_lt.mpr late)
      rw [others slot notNew notOld]
      exact ⟨Nat.lt_of_lt_of_le below further, spent⟩
  single := by
    have clash {k slot : Nat} {other : Worker} (apart : i ≠ k) (there : pool.workers[k]? = some other)
        (mine : new.slot? = some slot) (theirs : other.slot? = some slot) : False := by
      rcases fresh slot mine with own | late
      · exact apart (counted.single i k slot old other here there own theirs)
      · cases other with
        | putting own sha url bytes fetch =>
          cases theirs
          exact absurd (counted.putting k slot sha url bytes fetch there).1 (Nat.not_lt.mpr late)
        | looping | finished | failed => cases theirs
    intro j k slot one other first second mine theirs
    rw [List.getElem?_set] at first second
    by_cases own : i = j
    · by_cases also : i = k
      · exact own.symm.trans also
      · rw [if_pos own] at first
        rw [if_neg also] at second
        split at first
        · cases first
          exact (clash also second mine theirs).elim
        · cases first
    · rw [if_neg own] at first
      by_cases also : i = k
      · rw [if_pos also] at second
        split at second
        · cases second
          exact (clash own first theirs mine).elim
        · cases second
      · rw [if_neg also] at second
        exact counted.single j k slot one other first second mine theirs
  ahead := ahead
  crew := by
    rw [List.length_set]
    exact counted.crew

private theorem Pool.Counted.take {pool : Pool} {sent : List Request} (counted : pool.Counted d sent) {i : Nat}
    (looping : pool.workers[i]? = some .looping) :
    ({ (d.take pool).1 with workers := pool.workers.set i (d.take pool).2 } : Pool).Counted d sent := by
  have takes := take_takes d pool
  generalize d.take pool = taken at takes
  have later {slot : Nat} (beyond : pool.index + 1 ≤ slot) : sent.countP (Request.isPut slot) = 0 :=
    counted.ahead slot (Nat.le_of_succ_le beyond)
  cases takes with
  | none =>
    have kept : ({ pool with index := pool.index, workers := pool.workers.set i .finished } : Pool).Counted d sent :=
      counted.set pool.index looping (Nat.le_refl _) (fun _ _ _ => rfl) counted.puts nofun nofun counted.ahead
    exact kept
  | @fails sha failure =>
    have kept : ({ pool with index := pool.index + 1, workers := pool.workers.set i (.failed failure) } : Pool).Counted d sent :=
      counted.set (pool.index + 1) looping (Nat.le_succ _) (fun _ _ _ => rfl) counted.puts nofun nofun fun _ => later
    exact kept
  | @puts sha url bytes =>
    have kept : ({ pool with
        index := pool.index + 1,
        workers := pool.workers.set i (.putting pool.index sha url bytes (.ready 0)) } : Pool).Counted d sent := by
      refine counted.set (pool.index + 1) looping (Nat.le_succ _) (fun _ _ _ => rfl) counted.puts ?_ ?_ fun _ => later
      · rintro _ _ _ _ _ ⟨⟩
        rw [counted.ahead pool.index (Nat.le_refl _)]
        exact ⟨Nat.lt_succ_self _, Nat.zero_le _, Nat.le_refl _⟩
      · rintro _ ⟨⟩
        exact .inr (Nat.le_refl _)
    exact kept

private theorem Pool.Counted.put {pool : Pool} {sent : List Request} (counted : pool.Counted d sent) {i slot : Nat}
    {sha url : Text} {bytes : Bytes} {fetch : Fetch Unit} {turn : Turn Unit} {progress : Progress Unit} {aborted : Bool}
    (putting : pool.workers[i]? = some (.putting slot sha url bytes fetch))
    (turned : Turned d.maxRetries true aborted fetch turn progress) :
    ({ pool with workers := pool.workers.set i (afterPut slot sha url bytes progress) } : Pool).Counted d
      (progress.logged turn (.put slot sha) sent) := by
  obtain ⟨below, fits⟩ := counted.putting i slot sha url bytes fetch putting
  have mine : Request.isPut slot (.put slot sha) = true := beq_self_eq_true slot
  obtain ⟨still, most⟩ := turned.fits (.put slot sha) (Request.isPut slot) mine fits
  have other {own : Nat} (apart : slot ≠ own) :
      (progress.logged turn (.put slot sha) sent).countP (Request.isPut own) = sent.countP (Request.isPut own) :=
    logged_other (beq_eq_false_iff_ne.mpr apart)
  have keeps : ∀ own, (afterPut slot sha url bytes progress).slot? = some own → slot = own := by
    intro own named
    unfold afterPut at named
    split at named
    · exact Option.some_inj.mp named
    · split at named
      · cases named
      · cases named
    · cases named
  refine counted.set pool.index putting (Nat.le_refl _) (fun own _ apart => other fun same => apart (congrArg some same))
    (fun own => ?_) ?_ (fun own named => .inl (congrArg some (keeps own named))) fun own beyond => ?_
  · by_cases same : slot = own
    · rw [← same]
      exact most
    · rw [other same]
      exact counted.puts own
  · intro own sha' url' bytes' fetch' same
    cases progress with
    | still next =>
      cases same
      exact ⟨below, still⟩
    | ended outcome =>
      have named := keeps own (congrArg Worker.slot? same)
      cases outcome with
      | error failure => cases same
      | ok reply =>
        simp only [afterPut] at same
        split at same
        · cases same
        · cases same
  · have apart : slot ≠ own := fun same => absurd below (Nat.not_lt.mpr (same ▸ beyond))
    rw [other apart]
    exact counted.ahead own beyond

/-- Neither the phase nor what was sent of the other requests moves. -/
private theorem World.Counted.pooled (counted : w.Counted d) {org : OrgStorage} {pool : Pool} {sent : List Request}
    (kept : pool.Counted d sent) (busy : w.pool.workers ≠ [])
    (same : ∀ mine, (∀ slot sha, mine (.put slot sha) = false) → sent.countP mine = w.sent.countP mine) :
    { w with org, pool, sent }.Counted d := by
  have prepares := same Request.isPrepare fun _ _ => rfl
  have finalizes := same Request.isFinalize fun _ _ => rfl
  have publishes := same Request.isPublish fun _ _ => rfl
  refine ⟨kept, prepares.trans_le counted.prepares, fun fetch phase => absurd (counted.preparing fetch phase).2.2 busy,
    finalizes.trans_le counted.finalizes, fun fetch phase => ?_, fun early => finalizes.trans (counted.early early),
    publishes.trans_le counted.publishes, fun fin fetch phase => ?_,
    fun late => publishes.trans (counted.unpublished late), fun never => publishes.trans (counted.unwanted never)⟩
  · simp only [finalizes]
    exact counted.finalizing fetch phase
  · simp only [publishes]
    exact counted.publishing fin fetch phase

/-- What is sent does not change. -/
private theorem World.Counted.moved (counted : w.Counted d) {aborted : Bool} {org : OrgStorage} {handlers : List Finalizing} :
    { w with org, aborted, handlers }.Counted d :=
  ⟨counted.pool, counted.prepares, counted.preparing, counted.finalizes, counted.finalizing, counted.early,
    counted.publishes, counted.publishing, counted.unpublished, counted.unwanted⟩

theorem World.Counted.step (counted : w.Counted d) (step : World.Step d w later) : later.Counted d := by
  cases step with
  | abort | elsewhere | arrive | verify => exact counted.moved
  | prepare phase honest turned => exact counted.prepare phase (turn_cases turned)
  | take looping =>
    exact counted.pooled (counted.pool.take looping) (List.ne_nil_of_mem (List.mem_of_getElem? looping)) fun _ _ => rfl
  | put putting turned =>
    exact counted.pooled (counted.pool.put putting (turn_cases turned))
      (List.ne_nil_of_mem (List.mem_of_getElem? putting)) fun mine other => logged_other (other _ _)
  | joined phase all =>
    refine ⟨counted.pool, counted.prepares, nofun, counted.finalizes, ?_, nofun, counted.publishes, nofun,
      fun _ => counted.unpublished (congrArg Phase.unpublished phase), counted.unwanted⟩
    rintro _ ⟨⟩
    rw [counted.early (congrArg Phase.early phase)]
    exact ⟨Nat.zero_le _, Nat.le_refl _⟩
  | fell phase mem =>
    exact ⟨counted.pool, counted.prepares, nofun, counted.finalizes, nofun, nofun, counted.publishes, nofun, nofun,
      counted.unwanted⟩
  | finalize phase honest turned => exact counted.finalize phase (turn_cases turned)
  | publish phase turned => exact counted.publish phase (turn_cases turned)

/-- A deploy prepares and publishes once at most, and not where it is not to publish; it
asks for an upload or for the finalize no more than the retries allow, and has no more
uploads in flight than it was told. -/
theorem requests_bounded (run : Relation.ReflTransGen (World.Step d) (.start org) w) :
    w.sent.countP Request.isPrepare ≤ 1 ∧
      (∀ slot, w.sent.countP (Request.isPut slot) ≤ d.maxRetries + 1) ∧
      w.sent.countP Request.isFinalize ≤ d.maxRetries + 1 ∧
      w.sent.countP Request.isPublish ≤ (if d.publish = some false then 0 else 1) ∧
      w.pool.workers.length ≤ max 1 (d.concurrency.getD 8) := by
  have counted : w.Counted d := by
    induction run with
    | refl => exact start_counted org
    | tail _ step ih => exact ih.step step
  refine ⟨counted.prepares, counted.pool.puts, counted.finalizes, ?_, counted.pool.crew⟩
  split
  · exact (counted.unwanted ‹_›).le
  · exact counted.publishes

theorem page_deploy_bounded : pageAsked.countP Request.isPrepare ≤ 1 ∧
    (∀ slot, pageAsked.countP (Request.isPut slot) ≤ 2) ∧
      pageAsked.countP Request.isFinalize ≤ 2 ∧
      pageAsked.countP Request.isPublish ≤ 0 ∧ [Worker.finished].length ≤ 8 :=
  requests_bounded page_resolved

end Dropway.Sdk
