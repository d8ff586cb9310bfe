import Dropway.Api.Download

/-! No file is handed out in part, unless a stream breaks off and nothing else goes wrong:
the loop that reads a blob takes an error for its end. -/

namespace Dropway.Api
open Lib Lib.Outcome

/-! ### The loop -/

private theorem takes_le (limit total n : Nat) : takes limit total n ≤ n := by
  unfold takes
  split <;> omega

private theorem take_takes (limit : Nat) (buf bytes : Bytes) :
    bytes.take (takes limit buf.length bytes.length) = bytes.take (limit - buf.length) := by
  unfold takes
  split
  · rfl
  · rw [List.take_length, List.take_of_length_le (by omega)]

theorem readLoop_eq (limit : Nat) (buf : Bytes) (stream : BlobStream) :
    readLoop limit buf buf.length stream = buf ++ stream.delivered.take (limit - buf.length) := by
  induction stream generalizing buf with
  | chunk bytes rest ih =>
    rw [readLoop, BlobStream.delivered]
    split
    · rename_i room
      have size : buf.length + takes limit buf.length bytes.length =
          (buf ++ bytes.take (takes limit buf.length bytes.length)).length := by
        rw [List.length_append, List.length_take, min_eq_left (takes_le ..)]
      simp only [size, ih]
      rw [List.take_append, List.append_assoc, take_takes, List.length_append, List.length_take, ← Nat.sub_sub]
      congr 3
      omega
    · rename_i full
      rw [Nat.sub_eq_zero_of_le (not_lt.mp full), List.take_zero, List.append_nil]
  | stop bytes reason =>
    rw [readLoop, BlobStream.delivered]
    split
    · rw [take_takes]
    · rename_i full
      rw [Nat.sub_eq_zero_of_le (not_lt.mp full), List.take_zero, List.append_nil]

/-! ### The text of a file -/

theorem decode_encodeFileContent (bytes : Bytes) :
    decodeSkillFile (encodeFileContent bytes).2 (encodeFileContent bytes).1 = .ok bytes := by
  rw [encodeFileContent]
  split
  · rename_i text
    rw [decodeSkillFile, if_pos (Or.inr rfl)]
    exact congrArg _ text.1
  · have other : ¬ (encodingBase64 = [] ∨ encodingBase64 = encodingUtf8) := by decide
    rw [decodeSkillFile, if_neg other, if_pos rfl, Base64.decode_encode]

/-! ### What the store gives -/

/-- The reader gives a blob's bytes from their start, and says that they end only where
they do. -/
structure BlobStream.Of (blob : Bytes) (stream : BlobStream) : Prop where
  start : stream.delivered <+: blob
  whole : stream.reason = .eof → stream.delivered = blob

variable {objects : Objects} {stored : Text → Bytes} {files : FileMap}

/-- Whatever opens is a stream of the blob that is asked for. -/
def Objects.Serves (objects : Objects) (stored : Text → Bytes) : Prop :=
  ∀ path sha stream, objects.getBlob path sha = .ok stream → stream.Of (stored sha)

def FileMap.TrueSizes (files : FileMap) (stored : Text → Bytes) : Prop :=
  ∀ file ∈ files.rows, file.2.size = (stored file.2.sha256).length

/-- The blob of a file cannot be opened. -/
def Objects.Fails (objects : Objects) (file : Text × ManifestTarget) : Prop :=
  ∃ error, objects.getBlob file.1 file.2.sha256 = .error error

/-- Every byte of a file's blob is given before its stream ends, whether or not it ends
in an error. -/
def Objects.ReadsWhole (objects : Objects) (stored : Text → Bytes) (file : Text × ManifestTarget) : Prop :=
  ∀ stream, objects.getBlob file.1 file.2.sha256 = .ok stream → stream.delivered = stored file.2.sha256

/-- One of the blobs cannot be opened, or no stream breaks off before its last byte. -/
def Objects.Unbroken (objects : Objects) (stored : Text → Bytes) (reads : List (Text × ManifestTarget)) : Prop :=
  (∃ file ∈ reads, objects.Fails file) ∨ ∀ file ∈ reads, objects.ReadsWhole stored file

/-- The bytes that are read of a file, none if its blob does not open. -/
def Objects.body (objects : Objects) (file : Text × ManifestTarget) : Bytes :=
  match objects.getBlob file.1 file.2.sha256 with
  | .ok stream => stream.delivered
  | .error _ => []

private theorem read_opened {file : Text × ManifestTarget} {limit : Nat} (served : objects.Serves stored)
    (fits : (stored file.2.sha256).length ≤ limit) (opens : ¬ objects.Fails file) :
    objects.readBlobBounded file.1 file.2.sha256 limit = .ok (objects.body file) := by
  rw [Objects.readBlobBounded, Objects.body]
  cases opened : objects.getBlob file.1 file.2.sha256 with
  | error error => exact absurd ⟨error, opened⟩ opens
  | ok stream =>
    have short := (served _ _ stream opened).start.length_le.trans fits
    have read := readLoop_eq limit [] stream
    rw [List.length_nil, List.nil_append, Nat.sub_zero, List.take_of_length_le short] at read
    exact congrArg Except.ok read

private theorem read_fails {file : Text × ManifestTarget} (fails : objects.Fails file) (limit : Nat) :
    ∃ error, objects.readBlobBounded file.1 file.2.sha256 limit = .error error := by
  obtain ⟨error, failed⟩ := fails
  refine ⟨error, ?_⟩
  rw [Objects.readBlobBounded, failed]
  rfl

private theorem body_whole {file : Text × ManifestTarget} (opens : ¬ objects.Fails file) :
    objects.body file = stored file.2.sha256 ↔ objects.ReadsWhole stored file := by
  rw [Objects.body, Objects.ReadsWhole]
  cases opened : objects.getBlob file.1 file.2.sha256 with
  | error error => exact absurd ⟨error, opened⟩ opens
  | ok stream =>
    refine ⟨fun same other given => ?_, fun whole => whole stream rfl⟩
    cases given
    exact same

/-! ### What the client has of it -/

/-- A file of an answer decodes to the blob that the manifest has for its path. -/
def FileMap.Decodes (files : FileMap) (stored : Text → Bytes) (path content encoding : Text) : Prop :=
  ∃ target, (path, target) ∈ files.rows ∧ decodeSkillFile encoding content = .ok (stored target.sha256)

private theorem decodes_iff {file : Text × ManifestTarget} (mem : file ∈ files.rows) (body : Bytes) :
    files.Decodes stored file.1 (encodeFileContent body).1 (encodeFileContent body).2 ↔
      body = stored file.2.sha256 := by
  constructor
  · rintro ⟨target, inside, decoded⟩
    have same := files.eq_of_key inside mem rfl
    rw [decode_encodeFileContent] at decoded
    rw [← same]
    exact Except.ok.inj decoded
  · intro same
    refine ⟨file.2, mem, ?_⟩
    rw [decode_encodeFileContent, same]

/-- An answer that contains every file of the manifest once. -/
def FileMap.Complete (files : FileMap) (paths : List Text) : Prop := paths.Perm (files.rows.map Prod.fst)

structure SkillWhole (files : FileMap) (stored : Text → Bytes) (payload : SkillDownloadPayload) : Prop where
  complete : files.Complete (payload.files.map SkillFilePayload.path)
  exact : ∀ file ∈ payload.files, files.Decodes stored file.path file.content file.encoding

structure SiteWhole (files : FileMap) (stored : Text → Bytes) (response : SiteDownloadResponse) : Prop where
  complete : response.truncated = false → files.Complete (response.files.map SiteFilePayload.path)
  exact : ∀ file ∈ response.files, files.Decodes stored file.path file.content file.encoding

private theorem sorted_mem {file : Text × ManifestTarget} : file ∈ files.sorted ↔ file ∈ files.rows :=
  List.mem_insertionSort _

private theorem sorted_complete : files.Complete (files.sorted.map Prod.fst) :=
  (List.perm_insertionSort _ _).map _

/-- A request whose reads decide its answer: an error if a blob does not open, and else
one that is right when every blob was read to its end. -/
private theorem answers_iff {ε α : Type} {run : Except ε α} {right : α → Prop} {reads : List (Text × ManifestTarget)}
    (failed : (∃ file ∈ reads, objects.Fails file) → ∃ error, run = .error error)
    (answered : (∀ file ∈ reads, ¬ objects.Fails file) →
      ∃ answer, run = .ok answer ∧ (right answer ↔ ∀ file ∈ reads, objects.ReadsWhole stored file)) :
    (∀ answer, run = .ok answer → right answer) ↔ objects.Unbroken stored reads := by
  by_cases fails : ∃ file ∈ reads, objects.Fails file
  · obtain ⟨error, stopped⟩ := failed fails
    refine iff_of_true (fun answer ran => ?_) (Or.inl fails)
    rw [stopped] at ran
    cases ran
  · have opens : ∀ file ∈ reads, ¬ objects.Fails file := fun file mem bad => fails ⟨file, mem, bad⟩
    obtain ⟨answer, ran, judged⟩ := answered opens
    constructor
    · intro all
      exact Or.inr (judged.mp (all answer ran))
    · intro unbroken other otherRan
      rw [ran] at otherRan
      cases otherRan
      exact judged.mpr (unbroken.resolve_left fails)

/-! ### Skills -/

def skillPayload (objects : Objects) (file : Text × ManifestTarget) : SkillFilePayload :=
  ⟨file.1, (encodeFileContent (objects.body file)).1, (encodeFileContent (objects.body file)).2⟩

private theorem skillPayloads_opened (served : objects.Serves stored) {reads : List (Text × ManifestTarget)}
    (fits : ∀ file ∈ reads, (stored file.2.sha256).length ≤ Skillspec.maxTotalBytes)
    (opens : ∀ file ∈ reads, ¬ objects.Fails file) (total : Nat) :
    ∃ sum, skillPayloads objects total reads = .ok (reads.map (skillPayload objects), sum) := by
  induction reads generalizing total with
  | nil => exact ⟨total, rfl⟩
  | cons file rest ih =>
    obtain ⟨fit, laterFit⟩ := List.forall_mem_cons.mp fits
    obtain ⟨open_, laterOpen⟩ := List.forall_mem_cons.mp opens
    obtain ⟨sum, later⟩ := ih laterFit laterOpen (total + (objects.body file).length)
    refine ⟨sum, ?_⟩
    rw [skillPayloads, read_opened served fit open_]
    refine bind_ok.mpr ⟨_, rfl, bind_ok.mpr ⟨_, later, rfl⟩⟩

private theorem skillPayloads_fails {reads : List (Text × ManifestTarget)}
    (fails : ∃ file ∈ reads, objects.Fails file) (total : Nat) :
    ∃ error, skillPayloads objects total reads = .error error := by
  induction reads generalizing total with
  | nil =>
    obtain ⟨file, mem, -⟩ := fails
    cases mem
  | cons file rest ih =>
    rw [skillPayloads]
    cases read : objects.readBlobBounded file.1 file.2.sha256 Skillspec.maxTotalBytes with
    | error error => exact ⟨error, rfl⟩
    | ok body =>
      obtain ⟨bad, mem, failing⟩ := fails
      rcases List.mem_cons.mp mem with rfl | behind
      · obtain ⟨error, stopped⟩ := read_fails failing Skillspec.maxTotalBytes
        rw [stopped] at read
        cases read
      · obtain ⟨error, stopped⟩ := ih ⟨bad, behind, failing⟩ (total + body.length)
        refine ⟨error, ?_⟩
        simp only [bind, Except.bind, stopped]

private theorem skill_judged (stored : Text → Bytes) (opens : ∀ file ∈ files.sorted, ¬ objects.Fails file)
    (skill : Live) :
    SkillWhole files stored ⟨skill.slug, skill.id, skill.version, files.sorted.map (skillPayload objects)⟩ ↔
      ∀ file ∈ files.sorted, objects.ReadsWhole stored file := by
  constructor
  · intro whole file mem
    have decoded := whole.exact _ (List.mem_map_of_mem mem)
    exact (body_whole (opens file mem)).mp ((decodes_iff (sorted_mem.mp mem) _).mp decoded)
  · intro reads
    refine ⟨?_, fun payload inside => ?_⟩
    · rw [List.map_map]
      exact sorted_complete
    · obtain ⟨file, mem, rfl⟩ := List.mem_map.mp inside
      exact (decodes_iff (sorted_mem.mp mem) _).mpr ((body_whole (opens file mem)).mpr (reads file mem))

/-- What Validate is given of a verified manifest. -/
def FileMap.infos (files : FileMap) : List Skillspec.FileInfo :=
  files.rows.map fun file => ⟨file.1, file.2.size⟩

/-- No object store takes an object of more than a pebibyte. -/
def objectLimit : Nat := 2 ^ 50

private theorem skill_fits (sizes : files.TrueSizes stored) (limited : ∀ sha, (stored sha).length ≤ objectLimit)
    (valid : Skillspec.validate files.infos = .ok ()) :
    ∀ file ∈ files.sorted, (stored file.2.sha256).length ≤ Skillspec.maxTotalBytes := by
  obtain ⟨shaped, wrapped⟩ := Skillspec.validate_ok.mp valid
  have small : ∀ info ∈ files.infos, info.size ≤ 2 ^ 50 := by
    intro info inside
    obtain ⟨file, mem, rfl⟩ := List.mem_map.mp inside
    have limit := limited file.2.sha256
    rw [← sizes file mem] at limit
    exact Int.ofNat_le.mpr limit
  have total := shaped.total_small small
  intro file mem
  have part := shaped.size_le_total (List.mem_map_of_mem (sorted_mem.mp mem))
  change (file.2.size : Int) ≤ _ at part
  rw [Int.bmod_eq_of_le (by omega) (by omega)] at wrapped
  rw [← sizes file (sorted_mem.mp mem)]
  exact Int.ofNat_le.mp (part.trans wrapped)

private theorem skill_iff (served : objects.Serves stored) (sizes : files.TrueSizes stored)
    (limited : ∀ sha, (stored sha).length ≤ objectLimit) (valid : Skillspec.validate files.infos = .ok ()) {skill : Live}
    (found : objects.manifestFiles skill = .ok files) :
    (∀ payload, downloadSkill objects (.ok skill) = .ok payload → SkillWhole files stored payload) ↔
      objects.Unbroken stored files.sorted := by
  have shape : downloadSkill objects (.ok skill) = (skillPayloads objects 0 files.sorted).map fun payloads =>
      ⟨skill.slug, skill.id, skill.version, payloads.1⟩ := by
    simp only [downloadSkill, downloadSkillPayload, Except.mapError, bind, Except.bind, found]
    cases skillPayloads objects 0 files.sorted <;> rfl
  rw [shape]
  apply answers_iff
  · intro fails
    obtain ⟨error, stopped⟩ := skillPayloads_fails fails 0
    exact ⟨error, by rw [stopped]; rfl⟩
  · intro opens
    obtain ⟨sum, ran⟩ := skillPayloads_opened served (skill_fits sizes limited valid) opens 0
    exact ⟨_, by rw [ran]; rfl, skill_judged stored opens skill⟩

/-! ### Sites -/

/-- The files of a site whose turn comes before the budget is spent. -/
def Objects.budgeted (objects : Objects) : Nat → List (Text × ManifestTarget) → List (Text × ManifestTarget)
  | _, [] => []
  | total, file :: rest =>
    if siteContentMaxBytes < total + file.2.size then []
    else file :: objects.budgeted (total + (objects.body file).length) rest

def siteFile (objects : Objects) (file : Text × ManifestTarget) : SiteFilePayload :=
  sitePayload file.1 file.2 (objects.body file)

private theorem budgeted_sub {total : Nat} {reads : List (Text × ManifestTarget)} :
    ∀ file ∈ objects.budgeted total reads, file ∈ reads ∧ file.2.size ≤ siteContentMaxBytes := by
  induction reads generalizing total with
  | nil =>
    intro file mem
    cases mem
  | cons first rest ih =>
    intro file mem
    rw [Objects.budgeted] at mem
    split at mem
    · cases mem
    · rcases List.mem_cons.mp mem with rfl | behind
      · exact ⟨List.mem_cons_self .., by omega⟩
      · exact ⟨List.mem_cons_of_mem _ (ih file behind).1, (ih file behind).2⟩

private theorem sitePayloads_opened (served : objects.Serves stored) {reads : List (Text × ManifestTarget)}
    (sizes : ∀ file ∈ reads, file.2.size = (stored file.2.sha256).length) {total : Nat}
    (opens : ∀ file ∈ objects.budgeted total reads, ¬ objects.Fails file) :
    ∃ truncated, sitePayloads objects total reads =
        .ok ((objects.budgeted total reads).map (siteFile objects), truncated) ∧
      (truncated = false → objects.budgeted total reads = reads) := by
  induction reads generalizing total with
  | nil => exact ⟨false, rfl, fun _ => rfl⟩
  | cons file rest ih =>
    obtain ⟨size, laterSizes⟩ := List.forall_mem_cons.mp sizes
    rw [Objects.budgeted] at opens
    rw [sitePayloads, Objects.budgeted]
    split
    · exact ⟨true, rfl, fun whole => absurd whole Bool.true_eq_false.mp⟩
    · rename_i fit
      rw [if_neg fit] at opens
      obtain ⟨open_, laterOpen⟩ := List.forall_mem_cons.mp opens
      obtain ⟨truncated, later, whole⟩ := ih laterSizes laterOpen
      refine ⟨truncated, ?_, fun all => congrArg _ (whole all)⟩
      rw [read_opened served (show (stored file.2.sha256).length ≤ siteContentMaxBytes by omega) open_]
      exact bind_ok.mpr ⟨_, rfl, bind_ok.mpr ⟨_, later, rfl⟩⟩

private theorem sitePayloads_fails (served : objects.Serves stored) {reads : List (Text × ManifestTarget)}
    (sizes : ∀ file ∈ reads, file.2.size = (stored file.2.sha256).length) {total : Nat}
    (fails : ∃ file ∈ objects.budgeted total reads, objects.Fails file) :
    ∃ error, sitePayloads objects total reads = .error error := by
  induction reads generalizing total with
  | nil =>
    obtain ⟨file, mem, -⟩ := fails
    cases mem
  | cons file rest ih =>
    obtain ⟨size, laterSizes⟩ := List.forall_mem_cons.mp sizes
    rw [Objects.budgeted] at fails
    rw [sitePayloads]
    split
    · rename_i spent
      rw [if_pos spent] at fails
      obtain ⟨bad, mem, -⟩ := fails
      cases mem
    · rename_i fit
      rw [if_neg fit] at fails
      by_cases open_ : objects.Fails file
      · obtain ⟨error, stopped⟩ := read_fails open_ siteContentMaxBytes
        exact ⟨error, by rw [stopped]; rfl⟩
      · obtain ⟨bad, mem, failing⟩ := fails
        have behind := (List.mem_cons.mp mem).resolve_left fun same => open_ (same ▸ failing)
        obtain ⟨error, stopped⟩ := ih laterSizes ⟨bad, behind, failing⟩
        refine ⟨error, ?_⟩
        rw [read_opened served (show (stored file.2.sha256).length ≤ siteContentMaxBytes by omega) open_]
        simp only [bind, Except.bind, stopped]

private theorem site_judged (stored : Text → Bytes) {reads : List (Text × ManifestTarget)} {truncated : Bool}
    (inside : ∀ file ∈ reads, file ∈ files.rows) (whole : truncated = false → reads = files.sorted)
    (opens : ∀ file ∈ reads, ¬ objects.Fails file) (site : Live) :
    SiteWhole files stored ⟨site.slug, site.id, reads.map (siteFile objects), truncated⟩ ↔
      ∀ file ∈ reads, objects.ReadsWhole stored file := by
  constructor
  · intro right file mem
    have decoded := right.exact _ (List.mem_map_of_mem mem)
    exact (body_whole (opens file mem)).mp ((decodes_iff (inside file mem) _).mp decoded)
  · intro given
    refine ⟨fun all => ?_, fun payload listed => ?_⟩
    · rw [List.map_map]
      have complete : files.Complete (files.sorted.map Prod.fst) := sorted_complete
      rw [← whole all] at complete
      exact complete
    · obtain ⟨file, mem, rfl⟩ := List.mem_map.mp listed
      exact (decodes_iff (inside file mem) _).mpr ((body_whole (opens file mem)).mpr (given file mem))

private theorem site_iff (served : objects.Serves stored) (sizes : files.TrueSizes stored) {site : Live}
    (found : objects.manifestFiles site = .ok files) :
    (∀ response, downloadSite objects (.ok site) = .ok response → SiteWhole files stored response) ↔
      objects.Unbroken stored (objects.budgeted 0 files.sorted) := by
  have shape : downloadSite objects (.ok site) = (sitePayloads objects 0 files.sorted).map fun payloads =>
      ⟨site.slug, site.id, payloads.1, payloads.2⟩ := by
    simp only [downloadSite, Except.mapError, bind, Except.bind, found]
    cases sitePayloads objects 0 files.sorted <;> rfl
  have sorted : ∀ file ∈ files.sorted, file.2.size = (stored file.2.sha256).length :=
    fun file mem => sizes file (sorted_mem.mp mem)
  rw [shape]
  apply answers_iff
  · intro fails
    obtain ⟨error, stopped⟩ := sitePayloads_fails served sorted fails
    exact ⟨error, by rw [stopped]; rfl⟩
  · intro opens
    obtain ⟨truncated, ran, whole⟩ := sitePayloads_opened served sorted opens
    refine ⟨_, by rw [ran]; rfl, site_judged stored ?_ whole opens site⟩
    exact fun file mem => sorted_mem.mp (budgeted_sub file mem).1

/-- The file that ReadSiteFile reads: none without a path, off the manifest or over the
limit. -/
def FileMap.asked (files : FileMap) (path : Text) : List (Text × ManifestTarget) :=
  if path = [] then []
  else (files.get? path).toList.filter fun file => decide (file.2.size ≤ siteContentMaxBytes)

private theorem unbroken_nil : objects.Unbroken stored [] :=
  Or.inr fun _ mem => absurd mem List.not_mem_nil

private theorem unbroken_one {file : Text × ManifestTarget} (opens : ¬ objects.Fails file) :
    objects.Unbroken stored [file] ↔ objects.body file = stored file.2.sha256 := by
  rw [body_whole opens]
  constructor
  · intro unbroken
    rcases unbroken with ⟨other, mem, failing⟩ | whole
    · rw [List.mem_singleton.mp mem] at failing
      exact absurd failing opens
    · exact whole file (List.mem_singleton_self file)
  · intro whole
    refine Or.inr fun other mem => ?_
    rw [List.mem_singleton.mp mem]
    exact whole

private theorem file_iff (served : objects.Serves stored) (sizes : files.TrueSizes stored) {site : Live}
    (found : objects.manifestFiles site = .ok files) (path : Text) :
    (∀ payload, readSiteFile objects (.ok site) path = .ok payload →
        payload.path = path ∧ files.Decodes stored path payload.content payload.encoding) ↔
      objects.Unbroken stored (files.asked path) := by
  by_cases blank : path = []
  · rw [FileMap.asked, if_pos blank]
    refine iff_of_true (fun payload ran => ?_) unbroken_nil
    rw [readSiteFile, if_pos blank] at ran
    cases ran
  have shape (listing : Option (Text × ManifestTarget)) (listed : files.get? path = listing) :
      readSiteFile objects (.ok site) path = listing.elim (.error .notFound) fun file =>
        if siteContentMaxBytes < file.2.size then .error (.fileTooLarge path file.2.size)
        else (objects.readBlobBounded path file.2.sha256 siteContentMaxBytes).map (sitePayload path file.2) := by
    simp only [readSiteFile, if_neg blank, Except.mapError, bind, Except.bind, found, listed]
    cases listing with
    | none => rfl
    | some file =>
      rw [Option.elim_some]
      by_cases large : siteContentMaxBytes < file.2.size
      · simp only [if_pos large]
        rfl
      · simp only [if_neg large]
        cases objects.readBlobBounded path file.2.sha256 siteContentMaxBytes <;> rfl
  rw [shape _ rfl, FileMap.asked, if_neg blank]
  cases listed : files.get? path with
  | none =>
    refine iff_of_true (fun payload ran => ?_) unbroken_nil
    cases ran
  | some file =>
    obtain ⟨mem, rfl⟩ := Table.get?_eq_some.mp listed
    by_cases large : siteContentMaxBytes < file.2.size
    · have none : [file].filter (fun file => decide (file.2.size ≤ siteContentMaxBytes)) = [] :=
        List.filter_cons_of_neg (fun small => absurd (of_decide_eq_true small) (not_le.mpr large))
      simp only [Option.elim_some, if_pos large, Option.toList_some, none]
      refine iff_of_true (fun payload ran => ?_) unbroken_nil
      cases ran
    · have one : [file].filter (fun file => decide (file.2.size ≤ siteContentMaxBytes)) = [file] :=
        List.filter_cons_of_pos (decide_eq_true (not_lt.mp large))
      simp only [Option.elim_some, if_neg large, Option.toList_some, one]
      by_cases fails : objects.Fails file
      · refine iff_of_true (fun payload ran => ?_) (Or.inl ⟨file, List.mem_singleton_self file, fails⟩)
        obtain ⟨error, stopped⟩ := read_fails fails siteContentMaxBytes
        rw [stopped] at ran
        cases ran
      · have fit : (stored file.2.sha256).length ≤ siteContentMaxBytes := by
          rw [← sizes file mem]
          exact not_lt.mp large
        rw [read_opened served fit fails, unbroken_one fails]
        constructor
        · intro right
          exact (decodes_iff mem _).mp (right _ rfl).2
        · intro same payload ran
          cases ran
          exact ⟨rfl, (decodes_iff mem _).mpr same⟩

/-- A live version is handed out whole exactly where a blob does not open at all or no
stream breaks off before its blob's last byte. -/
theorem whole_files_iff (served : objects.Serves stored) (sizes : files.TrueSizes stored) {live : Live}
    (found : objects.manifestFiles live = .ok files) :
    ((∀ sha, (stored sha).length ≤ objectLimit) → Skillspec.validate files.infos = .ok () →
      ((∀ payload, downloadSkill objects (.ok live) = .ok payload → SkillWhole files stored payload) ↔
        objects.Unbroken stored files.sorted)) ∧
    (∀ path, (∀ payload, readSiteFile objects (.ok live) path = .ok payload →
        payload.path = path ∧ files.Decodes stored path payload.content payload.encoding) ↔
      objects.Unbroken stored (files.asked path)) ∧
    ((∀ response, downloadSite objects (.ok live) = .ok response → SiteWhole files stored response) ↔
      objects.Unbroken stored (objects.budgeted 0 files.sorted)) :=
  ⟨fun limited valid => skill_iff served sizes limited valid found, file_iff served sizes found, site_iff served sizes found⟩

/-! ### A blob of two bytes -/

def hiFiles : FileMap := .singleton ("SKILL.md".toList, ⟨['h'], [], 2⟩)

def hiBlob (_ : Text) : Bytes := [0x68, 0x69]

def hiObjects (stream : BlobStream) : Objects := ⟨fun _ => .ok hiFiles, fun _ _ => .ok stream⟩

def hiLive : Live := ⟨['i'], ['s'], 1, some ['v']⟩

private theorem hi_sizes : hiFiles.TrueSizes hiBlob := by
  intro file mem
  rw [List.mem_singleton.mp mem]
  rfl

private theorem hi_serves {stream : BlobStream} (of : stream.Of [0x68, 0x69]) : (hiObjects stream).Serves hiBlob := by
  intro path sha other given
  cases given
  exact of

theorem whole_files_hi :
    (∀ payload, downloadSkill (hiObjects (.chunk [0x68] (.stop [0x69] .eof))) (.ok hiLive) = .ok payload →
      SkillWhole hiFiles hiBlob payload) ↔
    (hiObjects (.chunk [0x68] (.stop [0x69] .eof))).Unbroken hiBlob hiFiles.sorted :=
  (whole_files_iff (hi_serves ⟨List.prefix_rfl, fun _ => rfl⟩) hi_sizes rfl).1 (fun _ => show 2 ≤ objectLimit by decide) (by decide)

/-- A stream that breaks off after the first byte is handed out as a file of one byte. -/
theorem half_a_file : ∃ objects : Objects, objects.Serves hiBlob ∧ objects.manifestFiles hiLive = .ok hiFiles ∧
    hiFiles.TrueSizes hiBlob ∧ Skillspec.validate hiFiles.infos = .ok () ∧
    downloadSkill objects (.ok hiLive) =
      .ok ⟨['s'], ['i'], 1, [⟨"SKILL.md".toList, ['h'], encodingUtf8⟩]⟩ ∧
    ¬ SkillWhole hiFiles hiBlob ⟨['s'], ['i'], 1, [⟨"SKILL.md".toList, ['h'], encodingUtf8⟩]⟩ := by
  have of : BlobStream.Of [0x68, 0x69] (.chunk [0x68] (.stop [] .broken)) :=
    ⟨⟨[0x69], rfl⟩, fun ended => by cases ended⟩
  refine ⟨hiObjects (.chunk [0x68] (.stop [] .broken)), hi_serves of, rfl, hi_sizes, by decide, by decide, ?_⟩
  intro whole
  obtain ⟨target, -, decoded⟩ := whole.exact _ (List.mem_singleton_self _)
  have short : decodeSkillFile encodingUtf8 ['h'] = .ok [0x68] := rfl
  rw [short] at decoded
  have lengths : 1 = 2 := congrArg List.length (Except.ok.inj decoded)
  cases lengths

end Dropway.Api
