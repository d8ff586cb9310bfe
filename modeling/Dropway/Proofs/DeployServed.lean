import Dropway.Edge.Worker
import Dropway.Proofs.CleanKeys
import Dropway.Proofs.StoredFiles

/-! Which deploys can be served. A finalize asks neither for content types nor for paths
that requests clean to; one file without the former takes the whole site down. -/

namespace Dropway.Api
open Lib Lib.Uri
open Edge (requestFor CleanKey cleanKey_iff requestFor_chars requestFor_decoded)

variable {path : Text}

/-- The names that the servers answer for themselves. -/
def Reserved (path : Text) : Prop :=
  path = "robots.txt".toList ∨ path = "llms.txt".toList ∨ path = Edge.chatReservedPath ∨
    Edge.isServiceWorkerScript path = true

/-- Both servers clean the request for a file to its path, and find the file there. -/
structure Served (worker : Edge.Manifest) (go : Serve.Manifest) (file : ManifestFile) : Prop where
  workerCleans : Edge.cleanPath (requestFor file.path) = some file.path
  serverCleans : Serve.cleanPath (Utf8.encode (requestFor file.path)) = some (Utf8.encode file.path)
  workerFinds : Edge.resolveManifestEntry worker file.path = some (file.path, .entry file.stored.onWorker)
  serverFinds : go.resolve (Utf8.encode file.path) = some (Utf8.encode file.path, file.stored.onServer)

/-- Both servers read what is stored, and serve every path of the request. -/
def WhollyServed (manifest : List ManifestFile) (stored : Bytes) : Prop :=
  ∃ worker go, Edge.readManifest stored = some worker ∧ Serve.parse stored = some go ∧
    ∀ file, LastOfPath manifest file → ¬ Reserved file.path → Served worker go file

/-- What verifyManifest does not ask of a manifest. -/
structure Fit (manifest : List ManifestFile) : Prop where
  typed : ∀ file, LastOfPath manifest file → file.contentType ≠ []
  clean : ∀ file, LastOfPath manifest file → ¬ Reserved file.path → CleanKey file.path

variable {worker : Edge.Manifest} {go : Serve.Manifest} {file : ManifestFile}

private theorem candidates_own (named : path ≠ []) (open' : path.getLast? ≠ some '/') :
    ∃ more, Edge.candidatePaths path = path :: more := by
  rw [Edge.candidatePaths, if_neg (not_or.mpr ⟨named, open'⟩)]
  split
  · exact ⟨_, rfl⟩
  · exact ⟨_, rfl⟩

/-- A directory is looked up under another name. -/
private theorem candidates_directory (directory : path = [] ∨ path.getLast? = some '/') :
    path ∉ Edge.candidatePaths path := by
  rw [Edge.candidatePaths, if_pos directory, List.mem_singleton]
  intro same
  have size := congrArg List.length same
  rw [List.length_append] at size
  have long : ("index.html".toList).length = 10 := rfl
  omega

private theorem served_of_clean (clean : CleanKey file.path)
    (gets : worker.files.get file.path = some (.entry file.stored.onWorker))
    (goGets : go.get (Utf8.encode file.path) = some file.stored.onServer) : Served worker go file := by
  obtain ⟨cleaned, named, open'⟩ := cleanKey_iff.mp clean
  obtain ⟨more, candidates⟩ := candidates_own named open'
  have plain : (requestFor file.path).takeWhile (fun c => c ≠ '?' ∧ c ≠ '#') = requestFor file.path :=
    List.takeWhile_eq_self_iff.mpr fun c mem => decide_eq_true (requestFor_chars _ c mem)
  have spelled := requestFor_decoded file.path
  rw [← plain] at spelled
  refine ⟨cleaned, ?_, ?_, ?_⟩
  · rw [Serve.cleanPath_eq spelled, cleaned]
    rfl
  · rw [Edge.resolveManifestEntry, candidates, List.findSome?_cons, gets]
    rfl
  · rw [Serve.Manifest.resolve, Serve.candidatePaths_encode, candidates, List.map_cons, List.findSome?_cons, goGets]
    rfl

private theorem clean_of_served (served : Served worker go file) : CleanKey file.path := by
  have found := served.workerFinds
  rw [Edge.resolveManifestEntry] at found
  obtain ⟨candidate, mem, gets⟩ := List.exists_of_findSome?_eq_some found
  obtain ⟨slot, -, same⟩ := Option.map_eq_some_iff.mp gets
  cases same
  have file' : ¬ (file.path = [] ∨ file.path.getLast? = some '/') := fun directory =>
    candidates_directory directory mem
  exact cleanKey_iff.mpr ⟨served.workerCleans, not_or.mp file'⟩

variable {hash : Sha256} {quota : StorageQuota} {r : FinalizeRequest} {files : List (Text × ManifestTarget)}

theorem lastOfPath_mem {manifest : List ManifestFile} (last : LastOfPath manifest file) : file ∈ manifest :=
  List.mem_reverse.mp (List.mem_of_find?_eq_some last)

/-- A deploy that is answered is servable exactly where every file has a content type and a clean path. -/
theorem deploy_servable_iff (answered : Answered hash quota r files) (fits : ∀ file ∈ r.manifest, file.size < 2 ^ 63) :
    WhollyServed r.manifest (storedManifest files) ↔ Fit r.manifest := by
  obtain ⟨rfl, verified⟩ := answered.checked
  have sorted : ByPath (filesOf r.manifest) := filesOf_byPath r.manifest
  have valid : ∀ file ∈ filesOf r.manifest, validSHA256 file.2.sha256 = true := by
    intro entry mem
    obtain ⟨file, last, rfl⟩ := mem_filesOf.mp mem
    exact (verified file (lastOfPath_mem last)).1
  have small : ∀ file ∈ filesOf r.manifest, file.2.size < 2 ^ 63 := by
    intro entry mem
    obtain ⟨file, last, rfl⟩ := mem_filesOf.mp mem
    have below := fits file (lastOfPath_mem last)
    have above := (verified file (lastOfPath_mem last)).2
    simp only [ManifestFile.stored]
    omega
  constructor
  · rintro ⟨worker, go, reads, -, served⟩
    have typed := (worker_reads sorted valid).mp (Option.isSome_iff_exists.mpr ⟨worker, reads⟩)
    refine ⟨fun file last => ?_, fun file last other => clean_of_served (served file last other)⟩
    exact typed _ (mem_filesOf.mpr ⟨file, last, rfl⟩)
  · intro fit
    have typed : ∀ file ∈ filesOf r.manifest, file.2.contentType ≠ [] := by
      intro entry mem
      obtain ⟨file, last, rfl⟩ := mem_filesOf.mp mem
      exact fit.typed file last
    obtain ⟨worker, reads⟩ := Option.isSome_iff_exists.mp ((worker_reads sorted valid).mpr typed)
    refine ⟨worker, _, reads, server_reads sorted valid small typed, fun file last other => ?_⟩
    have mem : (file.path, file.stored) ∈ filesOf r.manifest := mem_filesOf.mpr ⟨file, last, rfl⟩
    exact served_of_clean (fit.clean file last other)
      (worker_gets sorted (valid _ mem) (typed _ mem) reads mem) (server_gets sorted mem)

/-! ### One page -/

/-- So many steps of a finalize while nothing else happens to the org. -/
private def advance (hash : Sha256) (quota : StorageQuota) (input : Input) (org : OrgStorage) :
    Nat → Finalizing → Option Finalizing
  | 0, position => some position
  | n + 1, position => (position.next hash quota input org).bind fun step => advance hash quota input org n step.2

private theorem advance_run {input : Input} {org : OrgStorage} {n : Nat} {position later : Finalizing}
    (advanced : advance hash quota input org n position = some later) :
    Relation.ReflTransGen (Finalizing.Step hash quota) position later := by
  induction n generalizing position with
  | zero =>
    cases advanced
    exact .refl
  | succ n ih =>
    obtain ⟨⟨effect, next⟩, ran, rest⟩ := Option.bind_eq_some_iff.mp advanced
    exact .head ⟨input, org, effect, ran⟩ (ih rest)

/-- The page is deployed, with or without a content type. -/
theorem page_answered (contentType : Text) :
    Answered pageHash unmetered ⟨['s'], [{ pageFile with contentType }], pageDigest⟩
      [(['a'], ⟨pageSha, contentType, 2⟩)] := by
  have put : advance pageHash unmetered ⟨['v'], 0, false⟩ pageStorage 16
      (.verifyManifest ⟨['s'], [{ pageFile with contentType }], pageDigest⟩) =
        some (.putManifest [(['a'], ⟨pageSha, contentType, 2⟩)] pageVersion) := rfl
  have answer : advance pageHash unmetered ⟨['v'], 0, false⟩ pageStorage 2 (.createPreview pageVersion) =
      some (.finalized pageVersion) := rfl
  exact ⟨pageVersion, advance_run put, ⟨⟨['v'], 0, false⟩, pageStorage, _, rfl⟩, advance_run answer⟩

theorem page_fits (contentType : Text) :
    ∀ file ∈ [{ pageFile with contentType }], file.size < 2 ^ 63 := by
  intro file mem
  rw [List.mem_singleton.mp mem]
  exact (by decide : (2 : Int) < 2 ^ 63)

/-- A page without a content type is deployed, and no server reads its manifest. -/
theorem page_unserved : ¬ ∀ (hash : Sha256) (quota : StorageQuota) (r : FinalizeRequest)
    (files : List (Text × ManifestTarget)), Answered hash quota r files → (∀ file ∈ r.manifest, file.size < 2 ^ 63) →
      WhollyServed r.manifest (storedManifest files) := by
  intro served
  obtain ⟨worker, go, reads, -⟩ := served pageHash unmetered _ _ (page_answered []) (page_fits [])
  have sorted : ByPath [(['a'], ⟨pageSha, [], 2⟩)] := List.pairwise_singleton _ _
  have valid : ∀ file ∈ [(['a'], (⟨pageSha, [], 2⟩ : ManifestTarget))], validSHA256 file.2.sha256 = true := by
    intro file mem
    rw [List.mem_singleton.mp mem]
    decide
  have typed := (worker_reads sorted valid).mp (Option.isSome_iff_exists.mpr ⟨worker, reads⟩)
  exact typed _ (List.mem_singleton_self _) rfl

/-- With one it is served. -/
theorem page_served : WhollyServed [{ pageFile with contentType := "text/html".toList }]
    (storedManifest [(['a'], ⟨pageSha, "text/html".toList, 2⟩)]) := by
  refine (deploy_servable_iff (page_answered "text/html".toList) (page_fits _)).mpr ⟨?_, ?_⟩
  · intro file last
    rw [List.mem_singleton.mp (lastOfPath_mem last)]
    exact List.cons_ne_nil _ _
  · intro file last other
    rw [List.mem_singleton.mp (lastOfPath_mem last)]
    refine ⟨fun segment mem => ?_, by decide, by decide⟩
    rw [List.mem_singleton.mp (show segment ∈ [['a']] from mem)]
    decide

end Dropway.Api
