import Mathlib.Data.List.AList
import Mathlib.Logic.Relation

/-! A cache that is written after its store. A commit changes the store and
leaves a job of cache writes; the writes of all jobs interleave freely. A
refresh job has read what the whole cache should hold: it lists the keys, erases
those that should not be there and writes the others.

Where the writes of each key keep the order of the commits, the cache follows
the store. -/

namespace Dropway.Lib.WriteBehind

variable {σ κ ν : Type} [DecidableEq κ]

abbrev Cache (κ ν : Type) := AList fun _ : κ => ν

/-- Without a value, the key is erased. -/
structure Write (κ ν : Type) where
  key : κ
  value : Option ν

def Cache.apply (cache : Cache κ ν) (write : Write κ ν) : Cache κ ν :=
  match write.value with
  | some value => cache.insert write.key value
  | none => cache.erase write.key

inductive Job (κ ν : Type) where
  | writes (rest : List (Write κ ν))
  | refresh (desired : Cache κ ν)

/-- What a refresh does once it has listed the keys. -/
def refreshWrites (desired cache : Cache κ ν) : List (Write κ ν) :=
  (cache.keys.filter fun key => key ∉ desired).map (fun key => ⟨key, none⟩) ++
    desired.entries.map fun entry => ⟨entry.1, some entry.2⟩

def lastWrite : List (Write κ ν) → κ → Option (Option ν)
  | [], _ => none
  | write :: rest, key => (lastWrite rest key).or (if write.key = key then some write.value else none)

/-- What a job leaves a key with, if it touches it. -/
def Job.touch (key : κ) : Job κ ν → Option (Option ν)
  | .writes rest => lastWrite rest key
  | .refresh desired => some (desired.lookup key)

def settle (key : κ) (value : Option ν) (jobs : List (Job κ ν)) : Option ν :=
  jobs.foldl (fun value job => (job.touch key).getD value) value

/-- Jobs stand in the order of their commits. -/
structure State (σ κ ν : Type) where
  store : σ
  cache : Cache κ ν
  jobs : List (Job κ ν)

/-- `ordered` lets a write happen only once no earlier job is still to touch its
key. -/
inductive Step (commits : σ → Job κ ν → σ → Prop) (ordered : Bool) : State σ κ ν → State σ κ ν → Prop
  | commit {store after cache jobs job} (done : commits store job after) :
      Step commits ordered ⟨store, cache, jobs⟩ ⟨after, cache, jobs ++ [job]⟩
  | write {store cache before after write rest}
      (inOrder : ordered = true → ∀ job ∈ before, job.touch write.key = none) :
      Step commits ordered ⟨store, cache, before ++ .writes (write :: rest) :: after⟩
        ⟨store, cache.apply write, before ++ .writes rest :: after⟩
  | list {store cache before after desired} :
      Step commits ordered ⟨store, cache, before ++ .refresh desired :: after⟩
        ⟨store, cache, before ++ .writes (refreshWrites desired cache) :: after⟩

def State.Quiescent (state : State σ κ ν) : Prop := ∀ job ∈ state.jobs, job = .writes []

/-! Settling. -/

theorem lookup_apply (cache : Cache κ ν) (write : Write κ ν) (key : κ) :
    (cache.apply write).lookup key = if write.key = key then write.value else cache.lookup key := by
  unfold Cache.apply
  by_cases same : write.key = key
  · subst same
    rw [if_pos rfl]
    cases write.value with
    | some value => rw [AList.lookup_insert]
    | none => rw [AList.lookup_erase]
  · rw [if_neg same]
    cases write.value with
    | some value => rw [AList.lookup_insert_ne (Ne.symm same)]
    | none => rw [AList.lookup_erase_ne (Ne.symm same)]

theorem lastWrite_append (first second : List (Write κ ν)) (key : κ) :
    lastWrite (first ++ second) key = (lastWrite second key).or (lastWrite first key) := by
  induction first with
  | nil => simp [lastWrite]
  | cons write rest ih => rw [List.cons_append, lastWrite, ih, lastWrite, Option.or_assoc]

theorem lastWrite_eq_none {writes : List (Write κ ν)} {key : κ} :
    lastWrite writes key = none ↔ ∀ write ∈ writes, write.key ≠ key := by
  induction writes with
  | nil => simp [lastWrite]
  | cons write rest ih =>
    rw [lastWrite, Option.or_eq_none_iff, ih, List.forall_mem_cons, and_comm]
    simp

theorem mem_of_lastWrite {writes : List (Write κ ν)} {key : κ} {value : Option ν}
    (last : lastWrite writes key = some value) : ∃ write ∈ writes, write.key = key ∧ write.value = value := by
  induction writes with
  | nil => cases last
  | cons write rest ih =>
    rw [lastWrite, Option.or_eq_some_iff] at last
    rcases last with later | ⟨-, here⟩
    · obtain ⟨found, mem, same⟩ := ih later
      exact ⟨found, List.mem_cons_of_mem _ mem, same⟩
    · split at here
      · rename_i same
        exact ⟨write, List.mem_cons_self, same, Option.some.inj here⟩
      · cases here

theorem settle_append (key : κ) (value : Option ν) (first second : List (Job κ ν)) :
    settle key value (first ++ second) = settle key (settle key value first) second :=
  List.foldl_append

theorem settle_cons (key : κ) (value : Option ν) (job : Job κ ν) (jobs : List (Job κ ν)) :
    settle key value (job :: jobs) = settle key ((job.touch key).getD value) jobs :=
  rfl

theorem settle_untouched {key : κ} {jobs : List (Job κ ν)} (value : Option ν)
    (untouched : ∀ job ∈ jobs, job.touch key = none) : settle key value jobs = value := by
  induction jobs generalizing value with
  | nil => rfl
  | cons job jobs ih =>
    rw [settle_cons, untouched job List.mem_cons_self, Option.getD_none]
    exact ih value fun other mem => untouched other (List.mem_cons_of_mem _ mem)

/-- A job that touches the key makes what was there before irrelevant. -/
theorem settle_touched {key : κ} {jobs : List (Job κ ν)} (value other : Option ν)
    (touched : ¬ ∀ job ∈ jobs, job.touch key = none) : settle key value jobs = settle key other jobs := by
  induction jobs generalizing value other with
  | nil => exact absurd (fun _ mem => absurd mem List.not_mem_nil) touched
  | cons job jobs ih =>
    rw [settle_cons, settle_cons]
    cases here : job.touch key with
    | some found => rfl
    | none =>
      rw [Option.getD_none, Option.getD_none]
      refine ih value other fun untouched => touched ?_
      exact List.forall_mem_cons.mpr ⟨here, untouched⟩

private theorem lastWrite_puts (desired : Cache κ ν) (key : κ) :
    lastWrite (desired.entries.map fun entry => (⟨entry.1, some entry.2⟩ : Write κ ν)) key =
      (desired.lookup key).map some := by
  cases wanted : desired.lookup key with
  | none =>
    rw [Option.map_none, lastWrite_eq_none]
    intro write mem same
    obtain ⟨entry, entryMem, rfl⟩ := List.mem_map.mp mem
    have found := AList.mem_lookup_iff.mpr (show ⟨entry.1, entry.2⟩ ∈ desired.entries from entryMem)
    simp only at same
    rw [same, wanted] at found
    cases found
  | some value =>
    have entryMem := AList.mem_lookup_iff.mp (Option.mem_def.mpr wanted)
    cases last : lastWrite (desired.entries.map fun entry => (⟨entry.1, some entry.2⟩ : Write κ ν)) key with
    | none =>
      exact absurd rfl (lastWrite_eq_none.mp last ⟨key, some value⟩
        (List.mem_map.mpr ⟨⟨key, value⟩, entryMem, rfl⟩))
    | some final =>
      obtain ⟨write, mem, same, rfl⟩ := mem_of_lastWrite last
      obtain ⟨entry, otherMem, rfl⟩ := List.mem_map.mp mem
      have found := AList.mem_lookup_iff.mpr (show ⟨entry.1, entry.2⟩ ∈ desired.entries from otherMem)
      simp only at same
      rw [same, Option.mem_def, wanted] at found
      rw [Option.map_some, Option.some.inj found]

private theorem lastWrite_prunes (desired cache : Cache κ ν) (key : κ) :
    lastWrite ((cache.keys.filter fun key => key ∉ desired).map
        fun key => (⟨key, none⟩ : Write κ ν)) key =
      if key ∈ cache ∧ key ∉ desired then some none else none := by
  by_cases pruned : key ∈ cache ∧ key ∉ desired
  · rw [if_pos pruned]
    have listed : (⟨key, none⟩ : Write κ ν) ∈ (cache.keys.filter fun key => key ∉ desired).map
        fun key => (⟨key, none⟩ : Write κ ν) :=
      List.mem_map.mpr ⟨key, List.mem_filter.mpr ⟨AList.mem_keys.mp pruned.1, by simp [pruned.2]⟩, rfl⟩
    cases last : lastWrite ((cache.keys.filter fun key => key ∉ desired).map
        fun key => (⟨key, none⟩ : Write κ ν)) key with
    | none => exact absurd rfl (lastWrite_eq_none.mp last _ listed)
    | some final =>
      obtain ⟨write, mem, -, rfl⟩ := mem_of_lastWrite last
      obtain ⟨other, -, rfl⟩ := List.mem_map.mp mem
      rfl
  · rw [if_neg pruned, lastWrite_eq_none]
    intro write mem same
    obtain ⟨other, otherMem, rfl⟩ := List.mem_map.mp mem
    obtain ⟨present, absent⟩ := List.mem_filter.mp otherMem
    simp only at same
    subst same
    exact pruned ⟨AList.mem_keys.mpr present, by simpa using absent⟩

/-- A refresh leaves its keys as it wants them; those it neither wants nor finds
it does not touch. -/
theorem lastWrite_refreshWrites (desired cache : Cache κ ν) (key : κ) :
    lastWrite (refreshWrites desired cache) key =
      if desired.lookup key = none ∧ cache.lookup key = none then none
      else some (desired.lookup key) := by
  rw [refreshWrites, lastWrite_append, lastWrite_puts, lastWrite_prunes]
  cases wanted : desired.lookup key with
  | some value => simp
  | none =>
    have absent : key ∉ desired := AList.lookup_eq_none.mp wanted
    cases found : cache.lookup key with
    | none => simp [AList.lookup_eq_none.mp found]
    | some value =>
      have present : key ∈ cache := AList.lookup_isSome.mp (by rw [found]; rfl)
      simp [present, absent]

/-! Following the store. -/

/-- What commits promise of the job they leave: the keys it touches end up right,
the others stay right, and a refresh only reads. -/
structure Sound (commits : σ → Job κ ν → σ → Prop) (agree : σ → κ → Option ν → Prop) : Prop where
  touched : ∀ {store job after key value}, commits store job after → job.touch key = some value →
    agree after key value
  untouched : ∀ {store job after key value}, commits store job after → job.touch key = none →
    agree store key value → agree after key value
  refresh : ∀ {store desired after key value}, commits store (.refresh desired) after →
    agree store key value → agree after key value

/-- Some later job writes the key. -/
def Rewritten (key : κ) (jobs : List (Job κ ν)) : Prop :=
  ∃ rest, .writes rest ∈ jobs ∧ lastWrite rest key ≠ none

/-- Once all jobs are done the cache is right; and a key that a refresh may leave
alone was right before it, or is written again. -/
structure Follows (agree : σ → κ → Option ν → Prop) (state : State σ κ ν) : Prop where
  settled : ∀ key, agree state.store key (settle key (state.cache.lookup key) state.jobs)
  pruned : ∀ before desired after, state.jobs = before ++ .refresh desired :: after → ∀ key,
    desired.lookup key = none →
      agree state.store key (settle key (state.cache.lookup key) before) ∨ Rewritten key after

variable {commits : σ → Job κ ν → σ → Prop} {agree : σ → κ → Option ν → Prop}

private theorem follows_commit (sound : Sound commits agree) {store after : σ} {cache : Cache κ ν}
    {jobs : List (Job κ ν)} {job : Job κ ν} (done : commits store job after)
    (follows : Follows agree ⟨store, cache, jobs⟩) : Follows agree ⟨after, cache, jobs ++ [job]⟩ := by
  constructor
  · intro key
    rw [settle_append, settle_cons]
    cases touch : job.touch key with
    | some value => exact sound.touched done touch
    | none => exact sound.untouched done touch (follows.settled key)
  · intro before desired rest split key unwanted
    rcases List.append_eq_append_iff.mp split with ⟨more, rfl, last⟩ | ⟨more, rfl, last⟩
    · -- The refresh is the new job.
      cases more with
      | nil =>
        rw [List.nil_append, List.cons.injEq] at last
        obtain ⟨rfl, rfl⟩ := last
        rw [List.append_nil] at *
        exact .inl (sound.refresh done (follows.settled key))
      | cons first more => simp at last
    · cases more with
      | nil =>
        rw [List.nil_append, List.cons.injEq] at last
        obtain ⟨rfl, rfl⟩ := last
        rw [List.append_nil] at follows
        exact .inl (sound.refresh done (follows.settled key))
      | cons first more =>
        rw [List.cons_append, List.cons.injEq] at last
        obtain ⟨rfl, rfl⟩ := last
        rcases follows.pruned before desired more rfl key unwanted with right | ⟨writes, mem, written⟩
        · cases touch : job.touch key with
          | none => exact .inl (sound.untouched done touch right)
          | some value =>
            cases job with
            | writes writes =>
              exact .inr ⟨writes, by simp, by rw [show lastWrite writes key = _ from touch]; simp⟩
            | refresh other => exact .inl (sound.refresh done right)
        · exact .inr ⟨writes, List.mem_append_left _ mem, written⟩

/-- Doing the first write of a job early changes nothing, as no job before it
touches the key. -/
private theorem settle_write {cache : Cache κ ν} {before : List (Job κ ν)} {write : Write κ ν}
    {rest : List (Write κ ν)} (inOrder : ∀ job ∈ before, job.touch write.key = none) (key : κ)
    (after : List (Job κ ν)) :
    settle key ((cache.apply write).lookup key) (before ++ .writes rest :: after) =
      settle key (cache.lookup key) (before ++ .writes (write :: rest) :: after) := by
  rw [settle_append, settle_append, settle_cons, settle_cons, lookup_apply, Job.touch, Job.touch,
    lastWrite]
  by_cases same : write.key = key
  · subst same
    rw [if_pos rfl, if_pos rfl, settle_untouched _ inOrder, settle_untouched _ inOrder]
    cases lastWrite rest write.key with
    | some value => rfl
    | none => rfl
  · rw [if_neg same, if_neg same, Option.or_none]

private theorem follows_write {store : σ} {cache : Cache κ ν} {before after : List (Job κ ν)}
    {write : Write κ ν} {rest : List (Write κ ν)}
    (inOrder : ∀ job ∈ before, job.touch write.key = none)
    (follows : Follows agree ⟨store, cache, before ++ .writes (write :: rest) :: after⟩) :
    Follows agree ⟨store, cache.apply write, before ++ .writes rest :: after⟩ := by
  constructor
  · intro key
    rw [settle_write inOrder]
    exact follows.settled key
  · intro first desired last split key unwanted
    rcases List.append_eq_append_iff.mp split with ⟨more, rfl, tail⟩ | ⟨more, rfl, tail⟩
    · cases more with
      | nil => simp at tail
      | cons job more =>
        rw [List.cons_append, List.cons.injEq] at tail
        obtain ⟨rfl, rfl⟩ := tail
        rw [settle_write inOrder]
        exact follows.pruned (before ++ .writes (write :: rest) :: more) desired last
          (by simp) key unwanted
    · cases more with
      | nil => simp at tail
      | cons job more =>
        rw [List.cons_append, List.cons.injEq] at tail
        obtain ⟨rfl, -⟩ := tail
        -- A refresh touches every key.
        have touches := inOrder (.refresh desired) (by simp)
        cases touches

/-- Listing the keys leaves a key right, or a later job writes it. -/
private theorem agree_list {store : σ} {cache : Cache κ ν} {before middle last : List (Job κ ν)}
    {desired : Cache κ ν}
    (follows : Follows agree ⟨store, cache, before ++ .refresh desired :: (middle ++ last)⟩) {key : κ}
    (right : agree store key
      (settle key (cache.lookup key) (before ++ .refresh desired :: middle))) :
    agree store key (settle key (cache.lookup key)
        (before ++ .writes (refreshWrites desired cache) :: middle)) ∨ Rewritten key last := by
  rw [settle_append, settle_cons] at right ⊢
  rw [Job.touch, lastWrite_refreshWrites]
  rw [Job.touch, Option.getD_some] at right
  by_cases skipped : desired.lookup key = none ∧ cache.lookup key = none
  · rw [if_pos skipped, Option.getD_none]
    by_cases untouched : ∀ job ∈ middle, job.touch key = none
    · rw [settle_untouched _ untouched]
      rcases follows.pruned before desired _ rfl key skipped.1 with kept | ⟨writes, mem, written⟩
      · exact .inl kept
      · rcases List.mem_append.mp mem with early | late
        · exact absurd (untouched _ early) written
        · exact .inr ⟨writes, late, written⟩
    · exact .inl (settle_touched (desired.lookup key) _ untouched ▸ right)
  · rw [if_neg skipped]
    exact .inl right

private theorem follows_list {store : σ} {cache : Cache κ ν} {before after : List (Job κ ν)}
    {desired : Cache κ ν}
    (follows : Follows agree ⟨store, cache, before ++ .refresh desired :: after⟩) :
    Follows agree ⟨store, cache, before ++ .writes (refreshWrites desired cache) :: after⟩ := by
  constructor
  · intro key
    have whole : Follows agree ⟨store, cache, before ++ .refresh desired :: (after ++ [])⟩ := by
      rwa [List.append_nil]
    rcases agree_list whole (follows.settled key) with right | ⟨writes, mem, -⟩
    · exact right
    · cases mem
  · intro first other last split key unwanted
    rcases List.append_eq_append_iff.mp split with ⟨more, rfl, tail⟩ | ⟨more, rfl, tail⟩
    · cases more with
      | nil => simp at tail
      | cons job more =>
        rw [List.cons_append, List.cons.injEq] at tail
        obtain ⟨rfl, rfl⟩ := tail
        rcases follows.pruned (before ++ .refresh desired :: more) other last (by simp) key unwanted
          with right | rewritten
        · have split : Follows agree ⟨store, cache,
              before ++ .refresh desired :: (more ++ .refresh other :: last)⟩ := follows
          rcases agree_list split right with kept | ⟨writes, mem, written⟩
          · exact .inl kept
          · refine .inr ⟨writes, ?_, written⟩
            simpa using mem
        · exact .inr rewritten
    · cases more with
      | nil => simp at tail
      | cons job more =>
        rw [List.cons_append, List.cons.injEq] at tail
        obtain ⟨rfl, rfl⟩ := tail
        rcases follows.pruned first other (more ++ .refresh desired :: after) (by simp) key unwanted
          with right | ⟨writes, mem, written⟩
        · exact .inl right
        · refine .inr ⟨writes, ?_, written⟩
          rcases List.mem_append.mp mem with early | late
          · exact List.mem_append_left _ early
          · have later : .writes writes ∈ after := by simpa using late
            simp [later]

theorem Follows.step (sound : Sound commits agree) {state next : State σ κ ν}
    (follows : Follows agree state) (step : Step commits true state next) : Follows agree next := by
  cases step with
  | commit done => exact follows_commit sound done follows
  | write inOrder => exact follows_write (inOrder rfl) follows
  | list => exact follows_list follows

theorem Follows.run (sound : Sound commits agree) {state final : State σ κ ν}
    (follows : Follows agree state) (run : Relation.ReflTransGen (Step commits true) state final) :
    Follows agree final := by
  induction run with
  | refl => exact follows
  | tail _ step ih => exact ih.step sound step

theorem Follows.start {store : σ} {cache : Cache κ ν}
    (right : ∀ key, agree store key (cache.lookup key)) : Follows agree ⟨store, cache, []⟩ := by
  refine ⟨right, fun before desired after split => ?_⟩
  simp at split

/-- A cache that was right is right again once every job is done. -/
theorem agree_quiescent (sound : Sound commits agree) {store : σ} {cache : Cache κ ν}
    {final : State σ κ ν} (right : ∀ key, agree store key (cache.lookup key))
    (run : Relation.ReflTransGen (Step commits true) ⟨store, cache, []⟩ final)
    (quiescent : final.Quiescent) (key : κ) : agree final.store key (final.cache.lookup key) := by
  have settled := ((Follows.start right).run sound run).settled key
  rwa [settle_untouched] at settled
  intro job mem
  rw [quiescent job mem]
  rfl

end Dropway.Lib.WriteBehind
