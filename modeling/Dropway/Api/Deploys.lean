import Dropway.Api.Storage
import Dropway.Api.Store
import Dropway.Lib.Server

/-! The storage meter and CreateSiteVersion, statement by statement
(internal/store/versions.go). -/

namespace Dropway.Api
open Lib

/-- What the surroundings of a statement hand it: the id the database draws, the
clock, and whether a call to an outside service fails. -/
structure Input where
  id : Text
  now : Instant
  fails : Bool

/-- Decides from the plan tier, the current total and what is added to it. -/
abbrev StorageQuota := Text → Nat → Nat → Bool

/-- Where the metering of some blobs is. `capped` tells accountStorage from
meterStorageNoCap. -/
inductive Metering where
  | lockOrgStorageQuota (capped : Bool) (blobs : List BlobSize)
  | getOrgStorage (blobs : List BlobSize)
  | insertOrgBlob (capped : Bool) (current delta : Nat) (rest : List BlobSize)
  | getPlanTier (current delta : Nat)
  | addOrgStorage (delta : Nat)
  | metered

def Metering.start (capped : Bool) (blobs : List BlobSize) : Metering :=
  if blobs = [] then .metered else .lockOrgStorageQuota capped blobs

/-- After the ledger: nothing new is neither checked nor added. -/
def Metering.sum (capped : Bool) (current delta : Nat) : Metering :=
  if delta = 0 then .metered else if capped then .getPlanTier current delta else .addOrgStorage delta

/-- `none` once the blobs are metered; the quota may refuse. -/
def Metering.next (quota : StorageQuota) (org : OrgStorage) :
    Metering → Option (Except StoreError (Effect Change LockKey × Metering))
  | .lockOrgStorageQuota capped blobs =>
    some (.ok (.write .storageQuota,
      if capped then .getOrgStorage blobs else .insertOrgBlob capped 0 0 blobs))
  | .getOrgStorage blobs => some (.ok (.read [], .insertOrgBlob true org.storageBytes 0 blobs))
  | .insertOrgBlob capped current delta [] => some (.ok (.read [], .sum capped current delta))
  | .insertOrgBlob capped current delta (blob :: rest) =>
    if blob.sha = [] then some (.ok (.read [], .insertOrgBlob capped current delta rest))
    else if (org.orgBlobs.get? blob.sha).isSome then
      some (.ok (.read [.orgBlob blob.sha], .insertOrgBlob capped current delta rest))
    else some (.ok (.write (.orgBlob ⟨blob.sha, blob.size⟩),
      .insertOrgBlob capped current (delta + blob.size) rest))
  | .getPlanTier current delta =>
    if quota org.planTier current delta then some (.ok (.read [], .addOrgStorage delta))
    else some (.error .quotaExceeded)
  | .addOrgStorage delta => some (.ok (.write (.addStorage delta), .metered))
  | .metered => none

structure CreateSiteVersionParams where
  siteId : Text
  contentHash : Text
  status : VersionStatus
  blobs : List BlobSize
  deriving DecidableEq

def CreateSiteVersionParams.row (p : CreateSiteVersionParams) (id : Text) (versionNo : Nat) :
    VersionRow where
  id
  siteId := p.siteId
  versionNo
  status := p.status
  contentHash := p.contentHash
  previewExpiresAt := none

inductive Creating where
  | getSite (p : CreateSiteVersionParams)
  | getSiteVersionByContentHash (p : CreateSiteVersionParams)
  | accountStorage (p : CreateSiteVersionParams) (metering : Metering)
  | nextVersionNo (p : CreateSiteVersionParams)
  | createSiteVersion (p : CreateSiteVersionParams) (versionNo : Nat)
  | existing (p : CreateSiteVersionParams) (version : VersionRow)
  | created (p : CreateSiteVersionParams) (version : VersionRow)
  | returned (p : CreateSiteVersionParams) (version : VersionRow)
  | failed (error : StoreError)

/-- An id is never drawn twice. -/
def Creating.next (quota : StorageQuota) (input : Input) (position : Creating) (org : OrgStorage) :
    Option (Effect Change LockKey × Creating) :=
  match position with
  | .getSite p =>
    if (org.sites.get? p.siteId).isSome then some (.read [], .getSiteVersionByContentHash p)
    else some (.rollback, .failed .notFound)
  | .getSiteVersionByContentHash p =>
    match org.getSiteVersionByContentHash p.siteId p.contentHash with
    | some version => some (.read [], .existing p version)
    | none => some (.read [], .accountStorage p (.start true p.blobs))
  | .accountStorage p metering =>
    match metering.next quota org with
    | some (.ok (effect, metering)) => some (effect, .accountStorage p metering)
    | some (.error error) => some (.rollback, .failed error)
    | none => some (.read [], .nextVersionNo p)
  | .nextVersionNo p => some (.read [], .createSiteVersion p (org.nextVersionNo p.siteId))
  | .createSiteVersion p versionNo =>
    if org.ids.contains input.id then none
    else if org.versionConflict (p.row input.id versionNo) then
      some (.rollback, .failed (.db .uniqueViolation))
    else some (.write (.siteVersion (p.row input.id versionNo)), .created p (p.row input.id versionNo))
  | .existing p version => some (.commit, .returned p version)
  | .created p version => some (.commit, .returned p version)
  | .returned _ _ => none
  | .failed _ => none

/-- The calls that deploy to one site, each with some blobs. -/
def Creating.Admitted (siteId : Text) : Creating → Prop
  | .getSite p => p.siteId = siteId ∧ p.blobs ≠ []
  | _ => False

instance (siteId : Text) : DecidablePred (Creating.Admitted siteId) := fun position => by
  cases position <;> unfold Creating.Admitted <;> infer_instance

def deploys (quota : StorageQuota) (siteId : Text) : Server Input OrgStorage Change LockKey Creating where
  admits := Creating.Admitted siteId
  next input position org := position.next quota input org
  apply change org := change.apply org
  locks := Change.locks

end Dropway.Api
