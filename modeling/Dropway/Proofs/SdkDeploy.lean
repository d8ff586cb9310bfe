import Dropway.Proofs.DeployDigest
import Dropway.Proofs.ReadyManifests
import Dropway.Proofs.StoredFiles
import Dropway.Sdk.Deploy

/-! What a deploy of the SDK asks for is there when it asks: whatever is lost or retried,
and however the uploads overlap, the API finds every blob that its finalize names. -/

namespace Dropway.Sdk
open Lib Api

variable {d : Deployment} {files : List (Text × Content)} {org other : OrgStorage} {sha : Text} {bytes : Bytes}
  {w later : World}

private theorem mapM_all {α β : Type} {read : α → Option β} {items : List α} {values : List β}
    (mapped : items.mapM read = some values) :
    values.length = items.length ∧ (∀ value ∈ values, ∃ item ∈ items, read item = some value) ∧
      ∀ item ∈ items, ∃ value ∈ values, read item = some value := by
  induction items generalizing values with
  | nil =>
    cases mapped
    exact ⟨rfl, nofun, nofun⟩
  | cons item rest ih =>
    rw [List.mapM_cons] at mapped
    obtain ⟨first, here, mapped⟩ := Option.bind_eq_some_iff.mp mapped
    obtain ⟨more, later, same⟩ := Option.bind_eq_some_iff.mp mapped
    cases same
    obtain ⟨size, each, all⟩ := ih later
    refine ⟨congrArg (· + 1) size, fun value mem => ?_, fun source mem => ?_⟩
    · rcases List.mem_cons.mp mem with rfl | mem
      · exact ⟨item, List.mem_cons_self, here⟩
      · obtain ⟨source, there, made⟩ := each value mem
        exact ⟨source, List.mem_cons_of_mem _ there, made⟩
    · rcases List.mem_cons.mp mem with rfl | mem
      · exact ⟨first, List.mem_cons_self, here⟩
      · obtain ⟨value, there, made⟩ := all source mem
        exact ⟨value, List.mem_cons_of_mem _ there, made⟩

/-- What deploy builds its requests from. The hash tells its own files apart, and the
store opens the URLs that it signed. -/
structure Deployment.Sensible (d : Deployment) (files : List (Text × Content)) : Prop where
  built : buildDeploy d.hash files = .ok d.built
  hex : ∀ bytes, validSHA256 (d.hash bytes) = true
  apart : ∀ one ∈ files, ∀ other ∈ files, d.hash (toBytes one.2) = d.hash (toBytes other.2) → toBytes one.2 = toBytes other.2
  opens : ∀ sha, d.presign sha ≠ [] ∧ d.opens (d.presign sha) = some sha

/-! ### What was built -/

theorem Deployment.Sensible.build (sensible : d.Sensible files) :
    files ≠ [] ∧ ∃ manifest, files.mapM (manifestFile d.hash) = some manifest ∧
      d.built = ⟨manifest, files.map fun file => (d.hash (toBytes file.2), toBytes file.2), digest d.hash manifest⟩ := by
  have built := sensible.built
  unfold buildDeploy at built
  split at built
  · cases built
  · rename_i filled
    refine ⟨filled, ?_⟩
    split at built
    · cases built
    · rename_i made found
      obtain ⟨manifest, mapped, same⟩ := Option.bind_eq_some_iff.mp found
      exact ⟨manifest, mapped, (Except.ok.inj built).symm.trans (Option.some_inj.mp same).symm⟩

/-- The bytes of a hash have that hash. -/
theorem Deployment.Sensible.bytes_hash (sensible : d.Sensible files) (found : d.built.bytes sha = some bytes) :
    d.hash bytes = sha ∧ ∃ file ∈ files, bytes = toBytes file.2 := by
  obtain ⟨-, manifest, -, same⟩ := sensible.build
  obtain ⟨entry, last, rfl⟩ := Option.map_eq_some_iff.mp found
  rw [same, lastWith] at last
  have mem := List.mem_reverse.mp (List.mem_of_find?_eq_some last)
  have found := List.find?_some last
  have named : entry.1 = sha := of_decide_eq_true found
  obtain ⟨file, listed, rfl⟩ := List.mem_map.mp mem
  exact ⟨named, file, listed, rfl⟩

/-- Every file of the manifest has its bytes. -/
theorem Deployment.Sensible.manifest_bytes (sensible : d.Sensible files) {file : ManifestFile}
    (mem : file ∈ d.built.manifest) :
    ∃ bytes, d.built.bytes file.sha256 = some bytes ∧ file.size = bytes.length ∧ d.hash bytes = file.sha256 := by
  obtain ⟨-, manifest, mapped, same⟩ := sensible.build
  have listed : file ∈ manifest := by
    rw [same] at mem
    exact mem
  obtain ⟨source, there, made⟩ := (mapM_all mapped).2.1 file listed
  obtain ⟨path, -, same'⟩ := Option.bind_eq_some_iff.mp made
  cases same'
  have known : (d.built.bytes (d.hash (toBytes source.2))).isSome = true := by
    unfold Built.bytes
    rw [Option.isSome_map, lastWith_isSome, same]
    exact ⟨_, List.mem_map_of_mem there, rfl⟩
  obtain ⟨bytes, found⟩ := Option.isSome_iff_exists.mp known
  obtain ⟨hashed, twin, also, rfl⟩ := sensible.bytes_hash found
  have equal := sensible.apart twin also source there hashed
  refine ⟨_, found, ?_, hashed⟩
  rw [equal]

theorem Deployment.Sensible.manifest_valid (sensible : d.Sensible files) :
    d.built.manifest ≠ [] ∧ Api.digest d.hash d.built.manifest = d.built.digest ∧ validSHA256 d.built.digest = true := by
  obtain ⟨filled, manifest, mapped, same⟩ := sensible.build
  have size := (mapM_all mapped).1
  rw [same]
  refine ⟨?_, (sdk_digest_eq ..).symm, sensible.hex _⟩
  rintro rfl
  exact filled (List.eq_nil_of_length_eq_zero size.symm)

/-! ### What verifyManifest finds -/

/-- Sizes that were observed are those of the client. -/
def Deployment.Sized (d : Deployment) (verified : Verified) : Prop :=
  ∀ blob ∈ verified.blobs, ∃ bytes, d.built.bytes blob.sha = some bytes ∧ blob.size = bytes.length

def Deployment.Complete (d : Deployment) (org : OrgStorage) : Prop := ∀ file ∈ d.built.manifest, d.Stored org file.sha256

theorem Deployment.Sensible.adds (sensible : d.Sensible files) {file : ManifestFile} {verified : Verified}
    (mem : file ∈ d.built.manifest) (stored : d.Stored org file.sha256) (sized : d.Sized verified) :
    ∃ next, verified.add d.hash org file = .ok next ∧
      next.files = putFile file.path ⟨file.sha256, file.contentType, file.size.toNat⟩ verified.files ∧ d.Sized next := by
  obtain ⟨bytes, found, size, hashed⟩ := sensible.manifest_bytes mem
  have valid : validSHA256 file.sha256 = true := by
    rw [← hashed]
    exact sensible.hex bytes
  have whole : file.size.toNat = bytes.length := by omega
  have same : ¬ file.size ≠ (bytes.length : Int) := not_not.mpr size
  cases known : verified.size file.sha256 with
  | some observed =>
    obtain ⟨blob, first, rfl⟩ := Option.map_eq_some_iff.mp known
    have named := List.find?_some first
    obtain ⟨twin, also, equal⟩ := sized blob (List.mem_of_find?_eq_some first)
    rw [of_decide_eq_true named, found] at also
    cases also
    refine ⟨⟨verified.blobs, putFile file.path ⟨file.sha256, file.contentType, blob.size⟩ verified.files⟩, ?_, ?_, sized⟩
    · simp only [Verified.add, valid, known, equal, Bool.not_true, Bool.false_eq_true, if_false, Option.isSome_some, if_true]
      exact (if_neg same).trans rfl
    · rw [equal, whole]
  | none =>
    obtain ⟨blob, there, also⟩ := stored
    rw [found] at also
    cases also
    have read : verifyBlob d.hash org file.sha256 = .ok blob.bytes.length := by
      simp only [verifyBlob, there, hashed, if_true]
    refine ⟨⟨verified.blobs ++ [⟨file.sha256, blob.bytes.length⟩],
      putFile file.path ⟨file.sha256, file.contentType, blob.bytes.length⟩ verified.files⟩, ?_, ?_, ?_⟩
    · simp only [Verified.add, valid, known, read, Bool.not_true, Bool.false_eq_true, if_false, Option.isSome_none]
      exact (if_neg same).trans rfl
    · rw [whole]
    · intro seen listed
      rcases List.mem_append.mp listed with listed | listed
      · exact sized seen listed
      · rw [List.mem_singleton.mp listed]
        exact ⟨_, found, rfl⟩

/-- A handler of the finalize that has refused nothing. -/
def Deployment.Passes (d : Deployment) : Finalizing → Prop
  | .verifyManifest r => r = d.finalizeRequest
  | .verifyFiles r rest verified => r = d.finalizeRequest ∧ ∃ done, d.built.manifest = done ++ rest ∧
      verified.files = filesOf done ∧ d.Sized verified
  | .create files _ => files = filesOf d.built.manifest
  | .refused error => error = .objects
  | _ => False

theorem Deployment.Passes.step (sensible : d.Sensible files) (complete : d.Complete org) {position next : Finalizing}
    {quota : StorageQuota} {input : Input} {effect : Effect Change LockKey} (passes : d.Passes position)
    (early : verifying position = true) (stepped : position.next d.hash quota input org = some (effect, next)) :
    d.Passes next := by
  obtain ⟨filled, digested, hex⟩ := sensible.manifest_valid
  cases position with
  | verifyManifest r =>
    obtain rfl := passes
    have whole : ¬ (d.built.manifest = [] ∨ d.built.digest = []) := by
      rintro (none | none)
      · exact filled none
      · rw [none] at hex
        cases hex
    simp only [Finalizing.next, Deployment.finalizeRequest, if_neg whole, hex, digested, Bool.not_true,
      Bool.false_eq_true, if_false, ne_eq, not_true_eq_false, Option.some_inj] at stepped
    cases stepped
    exact ⟨rfl, [], rfl, rfl, fun _ mem => by cases mem⟩
  | verifyFiles r rest verified =>
    obtain ⟨rfl, done, split', files, sized⟩ := passes
    cases rest with
    | nil =>
      cases stepped
      rw [List.append_nil] at split'
      change verified.files = filesOf d.built.manifest
      rw [split']
      exact files
    | cons file rest =>
      have mem : file ∈ d.built.manifest := by
        rw [split']
        exact List.mem_append_right _ List.mem_cons_self
      obtain ⟨added, ok, put, sized⟩ := sensible.adds mem (complete file mem) sized
      simp only [Finalizing.next, ok] at stepped
      split at stepped
      · cases stepped
        exact rfl
      · cases stepped
        refine ⟨rfl, done ++ [file], ?_, ?_, sized⟩
        · rw [split', List.append_assoc]
          rfl
        · rw [put, filesOf_append, files]
  | _ => cases early

/-! ### What a prepare answers -/

/-- Everything that the store did not have is to be sent, and to where. -/
structure Deployment.Covers (d : Deployment) (org : OrgStorage) (prep : PrepareResponse) : Prop where
  all : ∀ file ∈ d.built.manifest, d.Stored org file.sha256 ∨ file.sha256 ∈ prep.missing
  url : ∀ sha ∈ prep.missing, uploadsOf prep.uploads sha = some (d.presign sha) ∧ ∃ bytes, d.built.bytes sha = some bytes

private theorem uploadsOf_append (uploads : List (Text × Text)) (sha other url : Text) :
    uploadsOf (uploads ++ [(sha, url)]) other = if sha = other then some url else uploadsOf uploads other := by
  unfold uploadsOf
  rw [lastWith_append, lastWith_cons]
  split
  · rfl
  · rfl

private theorem prepare_covers {heads : Text → Bool} {rest : List ManifestFile} {seen : List Text}
    {before prep : PrepareResponse} (prepared : prepareMissingBlobs heads d.presign rest seen before = some prep)
    (covered : ∀ sha ∈ seen, heads sha = true ∨ sha ∈ before.missing)
    (urls : ∀ sha ∈ before.missing, uploadsOf before.uploads sha = some (d.presign sha)) :
    (∀ sha ∈ seen, heads sha = true ∨ sha ∈ prep.missing) ∧
    (∀ file ∈ rest, heads file.sha256 = true ∨ file.sha256 ∈ prep.missing) ∧
      (∀ sha ∈ prep.missing, uploadsOf prep.uploads sha = some (d.presign sha)) ∧
      ∀ sha ∈ prep.missing, sha ∈ before.missing ∨ ∃ file ∈ rest, file.sha256 = sha := by
  induction rest generalizing seen before with
  | nil =>
    cases prepared
    exact ⟨covered, (fun _ mem => by cases mem), urls, fun _ mem => .inl mem⟩
  | cons file rest ih =>
    rw [prepareMissingBlobs] at prepared
    split at prepared
    · cases prepared
    split at prepared
    · rename_i twice
      obtain ⟨old, each, signed, known⟩ := ih prepared covered urls
      refine ⟨old, fun other mem => ?_, signed, fun sha mem => ?_⟩
      · rcases List.mem_cons.mp mem with rfl | mem
        · exact old _ twice
        · exact each other mem
      · exact (known sha mem).imp_right fun ⟨other, listed, same⟩ => ⟨other, List.mem_cons_of_mem _ listed, same⟩
    split at prepared
    · rename_i here
      obtain ⟨old, each, signed, known⟩ := ih prepared
        (fun sha mem => (List.mem_cons.mp mem).elim (fun same => .inl (same ▸ here)) (covered sha)) urls
      refine ⟨fun sha mem => old sha (List.mem_cons_of_mem _ mem), fun other mem => ?_, signed, fun sha mem => ?_⟩
      · rcases List.mem_cons.mp mem with rfl | mem
        · exact .inl here
        · exact each other mem
      · exact (known sha mem).imp_right fun ⟨other, listed, same⟩ => ⟨other, List.mem_cons_of_mem _ listed, same⟩
    · have more : ∀ sha ∈ before.missing ++ [file.sha256],
          uploadsOf (before.uploads ++ [(file.sha256, d.presign file.sha256)]) sha = some (d.presign sha) := by
        intro sha mem
        rw [uploadsOf_append]
        split
        · rename_i same
          rw [same]
        · rename_i apart
          rcases List.mem_append.mp mem with mem | mem
          · exact urls sha mem
          · exact absurd (List.mem_singleton.mp mem).symm apart
      obtain ⟨old, each, signed, known⟩ := ih prepared
        (fun sha mem => (List.mem_cons.mp mem).elim
          (fun same => .inr (same ▸ List.mem_append_right _ (List.mem_singleton_self _)))
          fun earlier => (covered sha earlier).imp_right (List.mem_append_left _)) more
      refine ⟨fun sha mem => old sha (List.mem_cons_of_mem _ mem), fun other mem => ?_, signed, fun sha mem => ?_⟩
      · rcases List.mem_cons.mp mem with rfl | mem
        · exact old _ List.mem_cons_self
        · exact each other mem
      · rcases known sha mem with listed | ⟨other, listed, same⟩
        · rcases List.mem_append.mp listed with listed | listed
          · exact .inl listed
          · exact .inr ⟨file, List.mem_cons_self, (List.mem_singleton.mp listed).symm⟩
        · exact .inr ⟨other, List.mem_cons_of_mem _ listed, same⟩

theorem Deployment.Prepares.covers (sensible : d.Sensible files) (untainted : d.Untainted org)
    {reply : Reply PrepareResponse} (prepares : d.Prepares org reply) {prep : PrepareResponse}
    (body : reply.body = some prep) : d.Covers org prep := by
  obtain ⟨heads, answer, honest, prepared, same⟩ := prepares
  rw [body] at same
  cases same
  obtain ⟨-, each, signed, known⟩ := prepare_covers prepared (fun _ mem => by cases mem) fun _ mem => by cases mem
  refine ⟨fun file mem => ?_, fun sha mem => ⟨signed sha mem, ?_⟩⟩
  · obtain ⟨bytes, found, -, -⟩ := sensible.manifest_bytes mem
    refine (each file mem).imp_left fun here => ?_
    obtain ⟨blob, there⟩ := Option.isSome_iff_exists.mp (honest _ here)
    exact ⟨blob, there, (untainted _ _ _ there found) ▸ found⟩
  · rcases known sha mem with old | ⟨file, listed, rfl⟩
    · cases old
    · obtain ⟨bytes, found, -, -⟩ := sensible.manifest_bytes listed
      exact ⟨bytes, found⟩

theorem Deployment.Covers.keep {prep : PrepareResponse} (covers : d.Covers org prep) (keeps : d.Keeps org other) :
    d.Covers other prep :=
  ⟨fun file mem => (covers.all file mem).imp_left (keeps.stored _), covers.url⟩

/-! ### The transport -/

/-- What a request can do next. -/
inductive Turned {β : Type} (maxRetries : Nat) (idempotent aborted : Bool) : Fetch β → Turn β → Progress β → Prop
  | stops {n : Nat} (cancelled : aborted = true) :
      Turned maxRetries idempotent aborted (.ready n) .send (.ended (.error .aborted))
  | sends {n : Nat} (running : aborted = false) :
      Turned maxRetries idempotent aborted (.ready n) .send (.still (.waiting n none))
  | answers {n : Nat} {reply : Reply β} :
      Turned maxRetries idempotent aborted (.waiting n none) (.reply reply) (.still (.waiting n (some reply)))
  | delivers {n : Nat} {reply : Reply β} :
      Turned maxRetries idempotent aborted (.waiting n (some reply)) .deliver (.ended (.ok reply))
  | backsOff {n : Nat} {reply : Option (Reply β)} {turn : Turn β} (again : idempotent = true) (left : n < maxRetries)
      (failed : turn = .deliver ∨ turn = .lose) :
      Turned maxRetries idempotent aborted (.waiting n reply) turn (.still (.sleeping n))
  | givesUp {n : Nat} {reply : Option (Reply β)} {failure : Failure} :
      Turned maxRetries idempotent aborted (.waiting n reply) .lose (.ended (.error failure))
  | wakes {n : Nat} : Turned maxRetries idempotent aborted (.sleeping n) .wake (.still (.ready (n + 1)))

theorem turn_cases {β : Type} {maxRetries : Nat} {idempotent aborted : Bool} {fetch : Fetch β} {turn : Turn β}
    {progress : Progress β} (turned : fetch.turn maxRetries idempotent aborted turn = some progress) :
    Turned maxRetries idempotent aborted fetch turn progress := by
  unfold Fetch.turn at turned
  split at turned
  · split at turned
    · cases turned
      exact .stops ‹_›
    · cases turned
      exact .sends (Bool.eq_false_iff.mpr ‹_›)
  · cases turned
    exact .answers
  · split at turned
    · rename_i again
      cases turned
      exact .backsOff again.1 again.2.1 (.inl rfl)
    · cases turned
      exact .delivers
  · unfold Fetch.caught at turned
    split at turned
    · cases turned
      exact .givesUp
    · split at turned
      · rename_i again
        cases turned
        exact .backsOff again.1 again.2 (.inr rfl)
      · cases turned
        exact .givesUp
  · cases turned
    exact .wakes
  · cases turned

/-- The response that is on its way, if there is one. -/
def Fetch.reply? {β : Type} : Fetch β → Option (Reply β)
  | .waiting _ reply => reply
  | _ => none

/-! ### Uploads -/

theorem Deployment.Keeps.refl (org : OrgStorage) : d.Keeps org org := ⟨fun _ stored => stored, fun untainted => untainted⟩

/-- What was put is there, and the rest is as before. -/
private theorem put_get (org : OrgStorage) (sha : Text) (bytes : Bytes) (other : Text) :
    ∃ blob, blob.bytes = bytes ∧ ((Change.putBlob ⟨sha, bytes, none⟩).apply org).blobs.get? other =
      if sha = other then some blob else org.blobs.get? other := by
  have written : ((Change.putBlob ⟨sha, bytes, none⟩).apply org).blobs.get? other =
      if sha = other then some ((org.blobs.get? other).elim ⟨sha, bytes, none⟩ fun old => ⟨old.sha, bytes, none⟩)
      else org.blobs.get? other := Table.get?_upsert other
  cases old : org.blobs.get? other with
  | none =>
    rw [old] at written
    exact ⟨_, rfl, written⟩
  | some blob =>
    rw [old] at written
    exact ⟨_, rfl, written⟩

private theorem put_keeps (found : d.built.bytes sha = some bytes) :
    d.Keeps org ((Change.putBlob ⟨sha, bytes, none⟩).apply org) := by
  constructor
  · rintro other ⟨blob, there, known⟩
    obtain ⟨new, same, get⟩ := put_get org sha bytes other
    by_cases own : sha = other
    · rw [if_pos own] at get
      refine ⟨new, get, ?_⟩
      rw [same, ← own, found]
    · rw [if_neg own] at get
      exact ⟨blob, get.trans there, known⟩
  · intro untainted other blob content there known
    obtain ⟨new, same, get⟩ := put_get org sha bytes other
    by_cases own : sha = other
    · rw [if_pos own, there] at get
      cases get
      rw [← own, found] at known
      cases known
      exact same
    · rw [if_neg own] at get
      exact untainted other blob content (get.symm.trans there) known

theorem Deployment.stores_keeps {url : Text} (found : d.built.bytes sha = some bytes) (opened : d.opens url = some sha)
    (turn : Turn Unit) : d.Keeps org (d.stores org url bytes turn) := by
  unfold Deployment.stores
  split
  · split
    · rw [opened]
      exact put_keeps found
    · exact .refl org
  · exact .refl org

theorem Deployment.stores_stored {url : Text} {reply : Reply Unit} (found : d.built.bytes sha = some bytes)
    (opened : d.opens url = some sha) (fine : statusOk reply.status = true) :
    d.Stored (d.stores org url bytes (.reply reply)) sha := by
  simp only [Deployment.stores, if_pos fine, opened]
  obtain ⟨new, same, get⟩ := put_get org sha bytes sha
  rw [if_pos rfl] at get
  exact ⟨new, get, same ▸ found⟩

/-- A worker that may yet store the item of a slot, or has failed to. -/
def Worker.Holds (slot : Nat) : Worker → Prop
  | .putting own _ _ _ _ => own = slot
  | .failed _ => True
  | _ => False

/-- What a worker is putting belongs under the hash, and an answer means that it is there. -/
def Deployment.WorkerSound (d : Deployment) (org : OrgStorage) (pool : Pool) : Worker → Prop
  | .putting slot sha url bytes fetch => pool.missing[slot]? = some sha ∧ d.built.bytes sha = some bytes ∧
      d.opens url = some sha ∧ ∀ reply ∈ fetch.reply?, statusOk reply.status = true → d.Stored org sha
  | .finished => pool.missing.length ≤ pool.index
  | _ => True

structure Deployment.PoolSound (d : Deployment) (org : OrgStorage) (pool : Pool) : Prop where
  signed : ∀ sha ∈ pool.missing, uploadsOf pool.uploads sha = some (d.presign sha)
  workers : ∀ worker ∈ pool.workers, d.WorkerSound org pool worker
  taken : ∀ slot sha, slot < pool.index → pool.missing[slot]? = some sha →
    d.Stored org sha ∨ ∃ worker ∈ pool.workers, worker.Holds slot
  crew : pool.missing ≠ [] → pool.workers ≠ []

theorem Deployment.PoolSound.keep {pool : Pool} (sound : d.PoolSound org pool) (keeps : d.Keeps org other) :
    d.PoolSound other pool where
  signed := sound.signed
  workers := by
    intro worker mem
    have kept := sound.workers worker mem
    cases worker with
    | putting slot sha url bytes fetch =>
      obtain ⟨item, found, opened, replied⟩ := kept
      exact ⟨item, found, opened, fun reply here fine => keeps.stored _ (replied reply here fine)⟩
    | finished => exact kept
    | looping | failed => trivial
  taken := fun slot sha below item => (sound.taken slot sha below item).imp_left (keeps.stored _)
  crew := sound.crew

private theorem set_ne_nil {α : Type} {items : List α} (filled : items ≠ []) (i : Nat) (item : α) : items.set i item ≠ [] := by
  intro none
  rw [List.set_eq_nil_iff] at none
  exact filled none

/-- What is not at `i` is still there. -/
private theorem mem_set_of_ne {α : Type} {workers : List α} {i : Nat} {old worker new : α} (here : workers[i]? = some old)
    (mem : worker ∈ workers) (apart : worker ≠ old) : worker ∈ workers.set i new := by
  obtain ⟨j, there⟩ := List.mem_iff_getElem?.mp mem
  refine List.mem_iff_getElem?.mpr ⟨j, ?_⟩
  have other : i ≠ j := by
    rintro rfl
    rw [here] at there
    exact apart (Option.some_inj.mp there).symm
  rw [List.getElem?_set_ne other, there]

private theorem mem_set_self {workers : List Worker} {i : Nat} {old new : Worker} (here : workers[i]? = some old) :
    new ∈ workers.set i new :=
  List.mem_set (List.getElem?_eq_some_iff.mp here).1 new

/-- What a worker does next. -/
inductive Deployment.Takes (d : Deployment) (pool : Pool) : Pool × Worker → Prop
  | none (ended : pool.missing.length ≤ pool.index) : d.Takes pool (pool, .finished)
  | fails {sha : Text} {failure : Failure} (item : pool.missing[pool.index]? = some sha) :
      d.Takes pool ({ pool with index := pool.index + 1 }, .failed failure)
  | puts {sha url : Text} {bytes : Bytes} (item : pool.missing[pool.index]? = some sha)
      (upload : uploadsOf pool.uploads sha = some url) (found : d.built.bytes sha = some bytes) :
      d.Takes pool ({ pool with index := pool.index + 1 }, .putting pool.index sha url bytes (.ready 0))

theorem take_takes (d : Deployment) (pool : Pool) : d.Takes pool (d.take pool) := by
  unfold Deployment.take
  split
  · exact .none (List.getElem?_eq_none_iff.mp ‹_›)
  · rename_i sha item
    split
    · exact .fails item
    · rename_i url upload
      split
      · exact .fails item
      · split
        · exact .fails item
        · exact .puts item upload ‹_›

/-- Only the worker at `i` and the index differ. -/
private theorem PoolSound.taking {pool : Pool} {i index : Nat} {worker : Worker} (sound : d.PoolSound org pool)
    (looping : pool.workers[i]? = some .looping) (further : pool.index ≤ index)
    (kept : d.WorkerSound org { pool with index } worker)
    (holds : ∀ slot sha, pool.index ≤ slot → slot < index → pool.missing[slot]? = some sha → worker.Holds slot) :
    d.PoolSound org { pool with index, workers := pool.workers.set i worker } where
  signed := sound.signed
  workers := by
    intro other mem
    rcases List.mem_or_eq_of_mem_set mem with mem | rfl
    · have old := sound.workers other mem
      cases other with
      | finished => exact Nat.le_trans old further
      | putting | looping | failed => exact old
    · cases other with
      | finished | putting | looping | failed => exact kept
  taken := by
    intro slot sha below item
    by_cases early : slot < pool.index
    · refine (sound.taken slot sha early item).imp_right fun ⟨other, mem, holding⟩ => ⟨other, ?_, holding⟩
      refine mem_set_of_ne looping mem ?_
      rintro rfl
      exact holding
    · exact .inr ⟨worker, mem_set_self looping, holds slot sha (Nat.le_of_not_lt early) below item⟩
  crew := fun filled => set_ne_nil (sound.crew filled) i _

theorem Deployment.Sensible.take (sensible : d.Sensible files) {pool : Pool} {i : Nat} (sound : d.PoolSound org pool)
    (looping : pool.workers[i]? = some .looping) :
    d.PoolSound org { (d.take pool).1 with workers := pool.workers.set i (d.take pool).2 } := by
  have takes := take_takes d pool
  generalize d.take pool = taken at takes
  have next {slot : Nat} (late : pool.index ≤ slot) (below : slot < pool.index + 1) : pool.index = slot :=
    Nat.le_antisymm late (Nat.le_of_lt_succ below)
  cases takes with
  | none ended =>
    exact PoolSound.taking sound looping (Nat.le_refl _) ended fun slot _ late below _ => absurd below (Nat.not_lt.mpr late)
  | @fails sha failure item =>
    have kept : d.PoolSound org { pool with
        index := pool.index + 1, workers := pool.workers.set i (.failed failure) } :=
      PoolSound.taking sound looping (Nat.le_succ _) trivial fun slot _ _ _ _ => trivial
    exact kept
  | @puts sha url bytes item upload found =>
    have signed := (sound.signed _ (List.mem_of_getElem? item)).symm.trans upload
    have opened : d.opens url = some sha := by
      rw [← Option.some_inj.mp signed]
      exact (sensible.opens _).2
    have kept : d.PoolSound org { pool with
        index := pool.index + 1, workers := pool.workers.set i (.putting pool.index sha url bytes (.ready 0)) } :=
      PoolSound.taking sound looping (Nat.le_succ _) ⟨item, found, opened, nofun⟩ fun slot _ late below _ => next late below
    exact kept

theorem Deployment.PoolSound.put {pool : Pool} {i slot : Nat} {url : Text} {fetch : Fetch Unit} {turn : Turn Unit}
    {progress : Progress Unit} {maxRetries : Nat} {aborted : Bool} (sound : d.PoolSound org pool)
    (putting : pool.workers[i]? = some (.putting slot sha url bytes fetch))
    (turned : Turned maxRetries true aborted fetch turn progress) :
    d.PoolSound (d.stores org url bytes turn)
      { pool with workers := pool.workers.set i (afterPut slot sha url bytes progress) } := by
  obtain ⟨item, found, opened, replied⟩ := sound.workers _ (List.mem_of_getElem? putting)
  have keeps : d.Keeps org (d.stores org url bytes turn) := Deployment.stores_keeps found opened turn
  have after : d.WorkerSound (d.stores org url bytes turn) pool (afterPut slot sha url bytes progress) ∧
      ((afterPut slot sha url bytes progress).Holds slot ∨ d.Stored (d.stores org url bytes turn) sha) := by
    cases turned with
    | sends | wakes | backsOff => exact ⟨⟨item, found, opened, nofun⟩, .inl rfl⟩
    | @answers _ reply =>
      refine ⟨⟨item, found, opened, fun other here fine => ?_⟩, .inl rfl⟩
      cases here
      exact Deployment.stores_stored found opened fine
    | @delivers _ reply =>
      unfold afterPut
      simp only
      split
      · exact ⟨trivial, .inr (keeps.stored _ (replied reply rfl ‹_›))⟩
      · exact ⟨trivial, .inl trivial⟩
    | stops | givesUp => exact ⟨trivial, .inl trivial⟩
  have kept := sound.keep keeps
  refine ⟨kept.signed, fun worker mem => ?_, fun other sha' below item' => ?_, fun filled => set_ne_nil (sound.crew filled) i _⟩
  · rcases List.mem_or_eq_of_mem_set mem with mem | rfl
    · have old := kept.workers worker mem
      cases worker with
      | putting | finished | looping | failed => exact old
    · generalize afterPut slot sha url bytes progress = worker at after
      cases worker with
      | putting | finished | looping | failed => exact after.1
  · rcases kept.taken other sha' below item' with stored | ⟨worker, mem, holds⟩
    · exact .inl stored
    · by_cases own : worker = .putting slot sha url bytes fetch
      · subst own
        obtain rfl : slot = other := holds
        rcases after.2 with holding | stored
        · exact .inr ⟨_, mem_set_self putting, holding⟩
        · rw [item] at item'
          cases item'
          exact .inl stored
      · exact .inr ⟨worker, mem_set_of_ne putting mem own, holds⟩

/-- Workers that have all finished have stored everything. -/
theorem Deployment.PoolSound.finished {pool : Pool} (sound : d.PoolSound org pool)
    (covers : d.Covers org ⟨pool.missing, pool.uploads⟩) (all : ∀ worker ∈ pool.workers, worker = .finished) :
    d.Complete org := by
  intro file mem
  rcases covers.all file mem with stored | missing
  · exact stored
  · obtain ⟨worker, there⟩ := List.exists_mem_of_ne_nil _ (sound.crew (List.ne_nil_of_mem missing))
    have ended := sound.workers worker there
    rw [all worker there] at ended
    obtain ⟨slot, item⟩ := List.mem_iff_getElem?.mp missing
    have below := Nat.lt_of_lt_of_le (List.getElem?_eq_some_iff.mp item).1 ended
    rcases sound.taken slot _ below item with stored | ⟨other, also, holds⟩
    · exact stored
    · rw [all other also] at holds
      exact holds.elim

/-! ### The deploy -/

/-- The uploads are done with. -/
def Phase.past : Phase → Bool
  | .finalizing _ | .publishing _ _ | .resolved _ => true
  | _ => false

/-- The API has accepted the finalize. -/
def Phase.finalized : Phase → Bool
  | .publishing _ _ | .resolved _ => true
  | _ => false

/-- A handler has verified the request, and knows its files. -/
def Deployment.Verified (d : Deployment) (handlers : List Finalizing) : Prop :=
  ∃ creating, .create (filesOf d.built.manifest) creating ∈ handlers

structure World.Sound (d : Deployment) (w : World) : Prop where
  untainted : d.Untainted w.org
  pool : d.PoolSound w.org w.pool
  prepared : ∀ fetch, w.phase = .preparing fetch → ∀ reply ∈ fetch.reply?, statusOk reply.status = true →
    ∀ prep, reply.body = some prep → d.Covers w.org prep
  covered : w.phase = .uploading → d.Covers w.org ⟨w.pool.missing, w.pool.uploads⟩
  complete : w.phase.past = true ∨ .finalize ∈ w.sent ∨ w.handlers ≠ [] → d.Complete w.org
  handlers : ∀ position ∈ w.handlers, d.Passes position
  replied : ∀ fetch, w.phase = .finalizing fetch → ∀ reply ∈ fetch.reply?, statusOk reply.status = true →
    d.Verified w.handlers
  finalized : w.phase.finalized = true → d.Verified w.handlers

theorem start_sound (untainted : d.Untainted org) : (World.start org).Sound d where
  untainted := untainted
  pool := ⟨nofun, nofun, nofun, fun filled => absurd rfl filled⟩
  prepared := by
    rintro fetch phase reply here
    cases phase
    cases here
  covered := nofun
  complete := by
    rintro (past | sent | filled)
    · cases past
    · cases sent
    · exact absurd rfl filled
  handlers := nofun
  replied := nofun
  finalized := nofun

theorem Reply.json_ok {β : Type} {reply : Reply β} {body : β} (read : reply.json = .ok body) :
    statusOk reply.status = true ∧ reply.body = some body := by
  unfold Reply.json at read
  split at read
  · rename_i fine
    refine ⟨fine, ?_⟩
    split at read
    · rename_i found
      cases read
      split at found
      · cases found
      · exact found
    · cases read
  · cases read

theorem mem_logged {β : Type} {turn : Turn β} {own request : Request} {sent : List Request} {progress : Progress β}
    (mem : request ∈ progress.logged turn own sent) : request ∈ sent ∨ request = own := by
  unfold Progress.logged at mem
  split at mem
  · split at mem
    · exact (List.mem_append.mp mem).imp_right List.mem_singleton.mp
    · exact .inl mem
  · exact .inl mem

theorem Deployment.Complete.keep (complete : d.Complete org) (keeps : d.Keeps org other) : d.Complete other :=
  fun file mem => keeps.stored _ (complete file mem)

/-- Only the storage moves. -/
theorem World.Sound.keep (sound : w.Sound d) (keeps : d.Keeps w.org org) : { w with org := org }.Sound d where
  untainted := keeps.untainted sound.untainted
  pool := sound.pool.keep keeps
  prepared := fun fetch phase reply here fine prep body => (sound.prepared fetch phase reply here fine prep body).keep keeps
  covered := fun phase => (sound.covered phase).keep keeps
  complete := fun asked => (sound.complete asked).keep keeps
  handlers := sound.handlers
  replied := sound.replied
  finalized := sound.finalized

private theorem start_pool {prep : PrepareResponse} (covers : d.Covers org prep) : d.PoolSound org (d.startUploads prep) where
  signed := fun sha mem => (covers.url sha mem).1
  workers := by
    intro worker mem
    rw [List.eq_of_mem_replicate mem]
    trivial
  taken := nofun
  crew := by
    intro filled none
    have size := congrArg List.length none
    have some := List.length_pos_iff.mpr filled
    simp only [Deployment.startUploads, List.length_replicate, List.length_nil] at size some
    omega

/-- Only the phase and what was sent move. -/
private theorem World.Sound.turn (sound : w.Sound d) {phase : Phase} {sent : List Request}
    (prepared : ∀ fetch, phase = .preparing fetch → ∀ reply ∈ fetch.reply?, statusOk reply.status = true →
      ∀ prep, reply.body = some prep → d.Covers w.org prep)
    (covered : phase ≠ .uploading) (complete : phase.past = true ∨ .finalize ∈ sent → d.Complete w.org)
    (replied : ∀ fetch, phase = .finalizing fetch → ∀ reply ∈ fetch.reply?, statusOk reply.status = true →
      d.Verified w.handlers)
    (finalized : phase.finalized = true → d.Verified w.handlers) : { w with phase, sent }.Sound d where
  untainted := sound.untainted
  pool := sound.pool
  prepared := prepared
  covered := fun same => absurd same covered
  complete := by
    rintro (past | asked | filled)
    · exact complete (.inl past)
    · exact complete (.inr asked)
    · exact sound.complete (.inr (.inr filled))
  handlers := sound.handlers
  replied := replied
  finalized := finalized

theorem World.Sound.prepare (sound : w.Sound d) {fetch : Fetch PrepareResponse} {turn : Turn PrepareResponse}
    {progress : Progress PrepareResponse} (sensible : d.Sensible files) (phase : w.phase = .preparing fetch)
    (honest : ∀ reply, turn = .reply reply → statusOk reply.status = true → d.Prepares w.org reply)
    (turned : Turned d.maxRetries false w.aborted fetch turn progress) : (d.afterPrepare w turn progress).Sound d := by
  have asked {past : Bool} (early : past = false)
      (mem : past = true ∨ .finalize ∈ progress.logged turn .prepare w.sent) : d.Complete w.org := by
    rcases mem with late | mem
    · rw [early] at late
      cases late
    · exact sound.complete (.inr (.inl ((mem_logged mem).resolve_right nofun)))
  cases turned with
  | stops | givesUp => exact sound.turn nofun nofun (asked rfl) nofun nofun
  | sends | wakes =>
    refine sound.turn ?_ nofun (asked rfl) nofun nofun
    rintro _ ⟨⟩ reply here
    cases here
  | @answers _ reply =>
    refine sound.turn ?_ nofun (asked rfl) nofun nofun
    rintro _ ⟨⟩ reply here fine prep body
    cases here
    exact (honest reply rfl fine).covers sensible sound.untainted body
  | backsOff again => cases again
  | @delivers _ reply =>
    have outcome : (Except.ok reply : Except Failure (Reply PrepareResponse)).bind Reply.json = reply.json := rfl
    unfold Deployment.afterPrepare
    simp only [outcome]
    cases read : reply.json with
    | error failure => exact sound.turn nofun nofun (asked rfl) nofun nofun
    | ok prep =>
      obtain ⟨fine, body⟩ := Reply.json_ok read
      have covers := sound.prepared _ phase reply rfl fine prep body
      refine ⟨sound.untainted, start_pool covers, nofun, fun _ => covers, ?_, sound.handlers, nofun, nofun⟩
      rintro (past | sent | filled)
      · cases past
      · exact asked rfl (.inr sent)
      · exact sound.complete (.inr (.inr filled))

theorem World.Sound.finalize (sound : w.Sound d) {fetch : Fetch FinalizeResponse} {turn : Turn FinalizeResponse}
    {progress : Progress FinalizeResponse} (phase : w.phase = .finalizing fetch)
    (honest : ∀ reply, turn = .reply reply → statusOk reply.status = true → ∃ files creating, .create files creating ∈ w.handlers)
    (turned : Turned d.maxRetries true w.aborted fetch turn progress) : (d.afterFinalize w turn progress).Sound d := by
  have complete : d.Complete w.org := sound.complete (.inl (congrArg Phase.past phase))
  cases turned with
  | stops | givesUp => exact sound.turn nofun nofun (fun _ => complete) nofun nofun
  | sends | wakes | backsOff =>
    refine sound.turn nofun nofun (fun _ => complete) ?_ nofun
    rintro _ ⟨⟩ reply here
    cases here
  | @answers _ reply =>
    refine sound.turn nofun nofun (fun _ => complete) ?_ nofun
    rintro _ ⟨⟩ reply here fine
    cases here
    obtain ⟨files, creating, mem⟩ := honest reply rfl fine
    obtain rfl : files = filesOf d.built.manifest := sound.handlers _ mem
    exact ⟨creating, mem⟩
  | @delivers _ reply =>
    have outcome : (Except.ok reply : Except Failure (Reply FinalizeResponse)).bind Reply.json = reply.json := rfl
    unfold Deployment.afterFinalize
    simp only [outcome]
    cases read : reply.json with
    | error failure => exact sound.turn nofun nofun (fun _ => complete) nofun nofun
    | ok fin =>
      have verified := sound.replied _ phase reply rfl (Reply.json_ok read).1
      simp only
      split
      · exact sound.turn nofun nofun (fun _ => complete) nofun fun _ => verified
      · exact sound.turn nofun nofun (fun _ => complete) nofun fun _ => verified

theorem World.Sound.publish (sound : w.Sound d) {fin : FinalizeResponse} {fetch : Fetch PublishResponse}
    {turn : Turn PublishResponse} {progress : Progress PublishResponse} (phase : w.phase = .publishing fin fetch)
    (turned : Turned d.maxRetries false w.aborted fetch turn progress) : (afterPublish w fin turn progress).Sound d := by
  have complete : d.Complete w.org := sound.complete (.inl (congrArg Phase.past phase))
  have verified : d.Verified w.handlers := sound.finalized (congrArg Phase.finalized phase)
  cases turned with
  | stops | givesUp => exact sound.turn nofun nofun (fun _ => complete) nofun nofun
  | sends | wakes | answers => exact sound.turn nofun nofun (fun _ => complete) nofun fun _ => verified
  | backsOff again => cases again
  | @delivers _ reply =>
    have outcome : (Except.ok reply : Except Failure (Reply PublishResponse)).bind Reply.json = reply.json := rfl
    unfold afterPublish
    simp only [outcome]
    cases reply.json with
    | error failure => exact sound.turn nofun nofun (fun _ => complete) nofun nofun
    | ok pub => exact sound.turn nofun nofun (fun _ => complete) nofun fun _ => verified

/-- Only the pool and what was sent move. -/
private theorem World.Sound.pooled (sound : w.Sound d) {pool : Pool} {sent : List Request} (kept : d.PoolSound w.org pool)
    (missing : pool.missing = w.pool.missing) (uploads : pool.uploads = w.pool.uploads)
    (same : .finalize ∈ sent → .finalize ∈ w.sent) : { w with pool, sent }.Sound d where
  untainted := sound.untainted
  pool := kept
  prepared := sound.prepared
  covered := by
    intro phase
    have covers := sound.covered phase
    rw [← missing, ← uploads] at covers
    exact covers
  complete := fun asked => sound.complete (asked.imp_right fun late => late.imp_left same)
  handlers := sound.handlers
  replied := sound.replied
  finalized := sound.finalized

/-- Only the handlers move. -/
private theorem World.Sound.handled (sound : w.Sound d) {handlers : List Finalizing} (complete : d.Complete w.org)
    (passes : ∀ position ∈ handlers, d.Passes position) (kept : d.Verified w.handlers → d.Verified handlers) :
    { w with handlers }.Sound d where
  untainted := sound.untainted
  pool := sound.pool
  prepared := sound.prepared
  covered := sound.covered
  complete := fun _ => complete
  handlers := passes
  replied := fun fetch phase reply here fine => kept (sound.replied fetch phase reply here fine)
  finalized := fun past => kept (sound.finalized past)

theorem World.Sound.step (sensible : d.Sensible files) (sound : w.Sound d) (step : World.Step d w later) :
    later.Sound d := by
  cases step with
  | abort => exact ⟨sound.untainted, sound.pool, sound.prepared, sound.covered, sound.complete, sound.handlers,
      sound.replied, sound.finalized⟩
  | elsewhere kept => exact sound.keep kept
  | prepare phase honest turned => exact sound.prepare sensible phase honest (turn_cases turned)
  | take looping =>
    have kept := sensible.take sound.pool looping
    have takes := take_takes d w.pool
    generalize d.take w.pool = taken at takes kept
    cases takes with
    | none | fails | puts => exact sound.pooled kept rfl rfl id
  | put putting turned =>
    have item := sound.pool.workers _ (List.mem_of_getElem? putting)
    have kept := sound.pool.put putting (turn_cases turned)
    exact (sound.keep (Deployment.stores_keeps item.2.1 item.2.2.1 _)).pooled kept rfl rfl
      fun mem => (mem_logged mem).resolve_right nofun
  | joined phase all =>
    have complete := sound.pool.finished (sound.covered phase) all
    refine ⟨sound.untainted, sound.pool, nofun, nofun, fun _ => complete, sound.handlers, ?_, nofun⟩
    rintro _ ⟨⟩ reply here
    cases here
  | fell phase mem =>
    refine ⟨sound.untainted, sound.pool, nofun, nofun, ?_, sound.handlers, nofun, nofun⟩
    rintro (past | late)
    · cases past
    · exact sound.complete (.inr late)
  | finalize phase honest turned => exact sound.finalize phase honest (turn_cases turned)
  | arrive asked =>
    refine sound.handled (sound.complete (.inr (.inl asked))) (fun position mem => ?_)
      fun ⟨creating, mem⟩ => ⟨creating, List.mem_append_left _ mem⟩
    rcases List.mem_append.mp mem with mem | mem
    · exact sound.handlers position mem
    · rw [List.mem_singleton.mp mem]
      exact rfl
  | @verify i position next _ _ _ handled early stepped =>
    have complete := sound.complete (.inr (.inr (List.ne_nil_of_mem (List.mem_of_getElem? handled))))
    refine sound.handled complete (fun other mem => ?_) fun ⟨creating, mem⟩ => ⟨creating, mem_set_of_ne handled mem ?_⟩
    · rcases List.mem_or_eq_of_mem_set mem with mem | rfl
      · exact sound.handlers other mem
      · exact (sound.handlers _ (List.mem_of_getElem? handled)).step sensible complete early stepped
    · rintro rfl
      cases early
  | publish phase turned => exact sound.publish phase (turn_cases turned)

theorem World.Sound.run (sensible : d.Sensible files) (untainted : d.Untainted org)
    (run : Relation.ReflTransGen (World.Step d) (.start org) w) : w.Sound d := by
  induction run with
  | refl => exact start_sound untainted
  | tail _ step ih => exact ih.step sensible step

/-! ### A deploy of one page -/

/-- SHA-256 on the page and on its digest line. -/
def pageHash : Sha256 := fun bytes => if bytes = pageBytes then pageSha else pageDigest

def pageFiles : List (Text × Content) := [(['a'], .text ['h', 'i'])]

def pageBuilt : Built := ⟨[⟨['a'], pageSha, 2, octetStream⟩], [(pageSha, pageBytes)], pageDigest⟩

def pageDeploy : Deployment where
  hash := pageHash
  presign := fun sha => '/' :: sha
  opens := List.tail?
  maxRetries := 1
  siteId := ['s']
  publish := some false
  concurrency := none
  built := pageBuilt

theorem page_sensible : pageDeploy.Sensible pageFiles where
  built := rfl
  hex := by
    intro bytes
    change validSHA256 (if bytes = pageBytes then pageSha else pageDigest) = true
    split
    · decide +kernel
    · decide +kernel
  apart := by
    intro one here other there _
    rw [List.mem_singleton.mp here, List.mem_singleton.mp there]
  opens := fun sha => ⟨List.cons_ne_nil _ _, rfl⟩

def pagePrepared : PrepareResponse := ⟨[pageSha], [(pageSha, '/' :: pageSha)]⟩

def pageFinalized : FinalizeResponse := ⟨['v'], none, none, none, none⟩

def emptyOrg : OrgStorage := { pageStorage with blobs := .empty }

def pageWorld (org : OrgStorage) (phase : Phase) (pool : Pool) (sent : List Request) (handlers : List Finalizing) : World :=
  ⟨org, false, phase, pool, sent, handlers⟩

def pagePool (index : Nat) (worker : Worker) : Pool := ⟨[pageSha], [(pageSha, '/' :: pageSha)], index, [worker]⟩

def pagePutting (fetch : Fetch Unit) : Worker := .putting 0 pageSha ('/' :: pageSha) pageBytes fetch

def pageOrg : OrgStorage := (Change.putBlob ⟨pageSha, pageBytes, none⟩).apply emptyOrg

def pageSent : List Request := [.prepare, .put 0 pageSha]

def pageReply : Reply PrepareResponse := ⟨200, some pagePrepared⟩

def pageStored : Reply Unit := ⟨200, none⟩

private theorem page_uploaded : Relation.ReflTransGen (World.Step pageDeploy) (.start emptyOrg)
    (pageWorld pageOrg .uploading (pagePool 1 .finished) pageSent []) := by
  have answered : pageDeploy.Prepares emptyOrg pageReply := ⟨fun _ => false, pagePrepared, nofun, rfl, rfl⟩
  refine .head (b := pageWorld emptyOrg (.preparing (.waiting 0 none)) ⟨[], [], 0, []⟩ [.prepare] [])
    (@World.Step.prepare pageDeploy _ (.ready 0) .send (.still (.waiting 0 none)) rfl nofun rfl) ?_
  refine .head (b := pageWorld emptyOrg (.preparing (.waiting 0 (some pageReply))) ⟨[], [], 0, []⟩ [.prepare] [])
    (@World.Step.prepare pageDeploy _ (.waiting 0 none) (.reply pageReply)
      (.still (.waiting 0 (some pageReply))) rfl ?_ rfl) ?_
  · rintro reply ⟨⟩ _
    exact answered
  refine .head (b := pageWorld emptyOrg .uploading (pagePool 0 .looping) [.prepare] [])
    (@World.Step.prepare pageDeploy _ (.waiting 0 (some pageReply)) .deliver
      (.ended (.ok pageReply)) rfl nofun rfl) ?_
  refine .head (b := pageWorld emptyOrg .uploading (pagePool 1 (pagePutting (.ready 0))) [.prepare] [])
    (@World.Step.take pageDeploy _ 0 rfl) ?_
  refine .head (b := pageWorld emptyOrg .uploading (pagePool 1 (pagePutting (.waiting 0 none))) pageSent [])
    (@World.Step.put pageDeploy _ 0 0 pageSha ('/' :: pageSha) pageBytes (.ready 0) .send
      (.still (.waiting 0 none)) rfl rfl) ?_
  refine .head (b := pageWorld pageOrg .uploading (pagePool 1 (pagePutting (.waiting 0 (some pageStored)))) pageSent [])
    (@World.Step.put pageDeploy _ 0 0 pageSha ('/' :: pageSha) pageBytes (.waiting 0 none) (.reply pageStored)
      (.still (.waiting 0 (some pageStored))) rfl rfl) ?_
  refine .head (b := pageWorld pageOrg .uploading (pagePool 1 .looping) pageSent [])
    (@World.Step.put pageDeploy _ 0 0 pageSha ('/' :: pageSha) pageBytes (.waiting 0 (some pageStored)) .deliver
      (.ended (.ok pageStored)) rfl rfl) ?_
  exact .single (@World.Step.take pageDeploy _ 0 rfl)

def pageAccepted : Reply FinalizeResponse := ⟨200, some pageFinalized⟩

def pageAsked : List Request := [.prepare, .put 0 pageSha, .finalize]

def pageHandled (phase : Phase) (handlers : List Finalizing) : World :=
  pageWorld pageOrg phase (pagePool 1 .finished) pageAsked handlers

def pageInput : Input := ⟨['v'], 0, false⟩

def pageVerified : Verified := ⟨[⟨pageSha, 2⟩], [(['a'], ⟨pageSha, octetStream, 2⟩)]⟩

def pageCreate : Finalizing := .create pageVerified.files (.getSite (pageDeploy.finalizeRequest.params pageVerified))

theorem page_resolved : Relation.ReflTransGen (World.Step pageDeploy) (.start emptyOrg)
    (pageHandled (.resolved (result (pagePool 1 .finished) pageFinalized)) [pageCreate]) := by
  refine page_uploaded.trans ?_
  refine .head (b := pageWorld pageOrg (.finalizing (.ready 0)) (pagePool 1 .finished) pageSent [])
    (@World.Step.joined pageDeploy _ rfl fun _ mem => List.mem_singleton.mp mem) ?_
  refine .head (b := pageHandled (.finalizing (.waiting 0 none)) [])
    (@World.Step.finalize pageDeploy _ (.ready 0) .send (.still (.waiting 0 none)) rfl nofun rfl) ?_
  refine .head (b := pageHandled (.finalizing (.waiting 0 none)) [.verifyManifest pageDeploy.finalizeRequest])
    (@World.Step.arrive pageDeploy _ (List.mem_cons_of_mem _ (List.mem_cons_of_mem _ List.mem_cons_self))) ?_
  refine .head (b := pageHandled (.finalizing (.waiting 0 none))
      [.verifyFiles pageDeploy.finalizeRequest pageBuilt.manifest ⟨[], []⟩])
    (@World.Step.verify pageDeploy _ 0 _ _ unmetered pageInput (.read []) rfl rfl rfl) ?_
  refine .head (b := pageHandled (.finalizing (.waiting 0 none)) [.verifyFiles pageDeploy.finalizeRequest [] pageVerified])
    (@World.Step.verify pageDeploy _ 0 _ _ unmetered pageInput (.read []) rfl rfl rfl) ?_
  refine .head (b := pageHandled (.finalizing (.waiting 0 none)) [pageCreate])
    (@World.Step.verify pageDeploy _ 0 _ _ unmetered pageInput (.read []) rfl rfl rfl) ?_
  refine .head (b := pageHandled (.finalizing (.waiting 0 (some pageAccepted))) [pageCreate])
    (@World.Step.finalize pageDeploy _ (.waiting 0 none) (.reply pageAccepted)
      (.still (.waiting 0 (some pageAccepted))) rfl ?_ rfl) ?_
  · intro _ _ _
    exact ⟨_, _, List.mem_cons_self⟩
  exact .single (@World.Step.finalize pageDeploy _ (.waiting 0 (some pageAccepted)) .deliver
    (.ended (.ok pageAccepted)) rfl nofun rfl)

theorem page_untainted : pageDeploy.Untainted emptyOrg := by
  intro sha blob bytes there
  cases there

/-! ### What a deploy finds -/

/-- Whatever is lost, retried or aborted, and whoever else uploads meanwhile: a handler of
the finalize refuses it only where the store does not answer, and verifies its own files. -/
theorem finalize_passes (sensible : d.Sensible files) (untainted : d.Untainted org)
    (run : Relation.ReflTransGen (World.Step d) (.start org) w) {position : Finalizing} (mem : position ∈ w.handlers) :
    (∀ error, position = .refused error → error = .objects) ∧
      ∀ verified creating, position = .create verified creating → verified = filesOf d.built.manifest := by
  have passes := (World.Sound.run sensible untainted run).handlers position mem
  refine ⟨fun error same => ?_, fun verified creating same => ?_⟩
  · rw [same] at passes
    exact passes
  · rw [same] at passes
    exact passes

theorem page_deploy_passes : (∀ error, pageCreate = .refused error → error = .objects) ∧
    ∀ verified creating, pageCreate = .create verified creating → verified = filesOf pageBuilt.manifest :=
  finalize_passes page_sensible page_untainted page_resolved List.mem_cons_self

/-- The store has the content of every file. -/
theorem Deployment.Complete.content (complete : d.Complete org) (sensible : d.Sensible files) {file : Text × Content}
    (mem : file ∈ files) : ∃ blob, org.blobs.get? (d.hash (toBytes file.2)) = some blob ∧ blob.bytes = toBytes file.2 := by
  obtain ⟨-, manifest, mapped, same⟩ := sensible.build
  obtain ⟨value, listed, made⟩ := (mapM_all mapped).2.2 file mem
  obtain ⟨path, -, same'⟩ := Option.bind_eq_some_iff.mp made
  cases same'
  have there := complete _ (show _ ∈ d.built.manifest by rw [same]; exact listed)
  obtain ⟨blob, found, known⟩ := there
  obtain ⟨hashed, twin, also, content⟩ := sensible.bytes_hash known
  refine ⟨blob, found, ?_⟩
  rw [content] at hashed ⊢
  exact sensible.apart twin also file mem hashed

/-- When a deploy resolves, the API has verified its files, and the store has the content of each. -/
theorem resolved_verified (sensible : d.Sensible files) (untainted : d.Untainted org)
    (run : Relation.ReflTransGen (World.Step d) (.start org) w) {result : DeployResult} (resolved : w.phase = .resolved result) :
    (∃ creating, .create (filesOf d.built.manifest) creating ∈ w.handlers) ∧ ∀ file ∈ files,
      ∃ blob, w.org.blobs.get? (d.hash (toBytes file.2)) = some blob ∧ blob.bytes = toBytes file.2 := by
  have sound := World.Sound.run sensible untainted run
  have complete := sound.complete (.inl (congrArg Phase.past resolved))
  exact ⟨sound.finalized (congrArg Phase.finalized resolved), fun file mem => complete.content sensible mem⟩

theorem page_deploy_verified : (∃ creating, .create (filesOf pageBuilt.manifest) creating ∈ [pageCreate]) ∧
    ∀ file ∈ pageFiles, ∃ blob, pageOrg.blobs.get? (pageHash (toBytes file.2)) = some blob ∧ blob.bytes = toBytes file.2 :=
  resolved_verified page_sensible page_untainted page_resolved rfl

end Dropway.Sdk
