import Dropway.Api.Collection
import Dropway.Api.Seeding

/-! All that works on the storage of one org at the same time. -/

namespace Dropway.Api
open Lib

inductive StorageRequest where
  | finalize (finalizing : Finalizing)
  | publish (publishing : Publishing)
  | seed (seeding : Seeding)
  | collect (collecting : Collecting)
  /-- A client's upload to the key of a blob. -/
  | upload (sha : Text) (bytes : Bytes)
  | uploaded

inductive StorageRequest.Starts : StorageRequest → Prop
  | finalize (r : FinalizeRequest) : Starts (.finalize (.verifyManifest r))
  | publish (siteId versionId : Text) : Starts (.publish (.getSite siteId versionId))
  | seed (seeds : List SkillSeed) : Starts (.seed (.skillsSeeded seeds))
  | collect (policy : GCPolicy) : Starts (.collect (.listVersions policy))
  | upload (sha : Text) (bytes : Bytes) : Starts (.upload sha bytes)

instance : DecidablePred StorageRequest.Starts := fun request => by
  cases request with
  | finalize finalizing =>
    cases finalizing with
    | verifyManifest r => exact .isTrue (.finalize r)
    | _ => exact .isFalse fun starts => nomatch starts
  | publish publishing =>
    cases publishing with
    | getSite siteId versionId => exact .isTrue (.publish siteId versionId)
    | _ => exact .isFalse fun starts => nomatch starts
  | seed seeding =>
    cases seeding with
    | skillsSeeded seeds => exact .isTrue (.seed seeds)
    | _ => exact .isFalse fun starts => nomatch starts
  | collect collecting =>
    cases collecting with
    | listVersions policy => exact .isTrue (.collect policy)
    | _ => exact .isFalse fun starts => nomatch starts
  | upload sha bytes => exact .isTrue (.upload sha bytes)
  | uploaded => exact .isFalse fun starts => nomatch starts

def StorageRequest.next (hash : Sha256) (quota : StorageQuota) (input : Input) (request : StorageRequest)
    (org : OrgStorage) : Option (Effect Change LockKey × StorageRequest) :=
  match request with
  | .finalize finalizing => (finalizing.next hash quota input org).map fun step => (step.1, .finalize step.2)
  | .publish publishing => (publishing.next input org).map fun step => (step.1, .publish step.2)
  | .seed seeding => (seeding.next quota input org).map fun step => (step.1, .seed step.2)
  | .collect collecting => (collecting.next input org).map fun step => (step.1, .collect step.2)
  | .upload sha bytes => some (.outside (.putBlob ⟨sha, bytes, some input.now⟩), .uploaded)
  | .uploaded => none

def storageServer (hash : Sha256) (quota : StorageQuota) : Server Input OrgStorage Change LockKey StorageRequest where
  admits := StorageRequest.Starts
  next input request org := request.next hash quota input org
  apply change org := change.apply org
  locks := Change.locks

end Dropway.Api
