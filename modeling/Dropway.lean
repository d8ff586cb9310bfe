import Dropway.Proofs.RouteAgreement
import Dropway.Proofs.EdgeConsistency
import Dropway.Proofs.ExternalSharing
import Dropway.Proofs.CacheKey
import Dropway.Proofs.GatedSecrecy
import Dropway.Proofs.VersionNumbers
import Dropway.Proofs.ReadyManifests
import Dropway.Proofs.MeterRecovery
import Dropway.Proofs.StorageLedger
import Dropway.Proofs.PayingOrg
import Dropway.Proofs.PlanTiers
import Dropway.Proofs.RouteContract
import Dropway.Proofs.ServeAgreement
import Dropway.Proofs.ListingAgreement
import Dropway.Proofs.DeployDigest
import Dropway.Proofs.SkillUpdates
import Dropway.Proofs.DenylistTightens
import Dropway.Proofs.KeyAge
import Dropway.Proofs.ChatNumbers
import Dropway.Proofs.ChatTranscript
import Dropway.Proofs.RedirectRegistrations
import Dropway.Proofs.ChatTail
import Dropway.Proofs.ContentFollows
import Dropway.Proofs.MemoryWatermark
import Dropway.Proofs.BodyTag
import Dropway.Proofs.HeadLength
import Dropway.Proofs.SignInTrip
import Dropway.Api.Slug
import Dropway.Proofs.HostNames
import Dropway.Proofs.PriceItems
import Dropway.Proofs.ServeLimit
import Dropway.Lib.Metered
import Dropway.Api.RateLimit
import Dropway.Proofs.BucketEviction
import Dropway.Api.GarbagePass
import Dropway.Proofs.GarbageExact
import Dropway.Chatspec.Normalize
import Dropway.Proofs.ImportValid
import Dropway.Proofs.ImportDetect
import Dropway.Proofs.ChatgptOrder
import Dropway.Lib.Encoded
import Dropway.Lib.Hrefs
import Dropway.Lib.Autoindex
import Dropway.Proofs.WholeFiles
import Dropway.Proofs.HardRevocation
import Dropway.Proofs.VersionContent
import Dropway.Proofs.PullPush
import Dropway.Proofs.SkillFolders
import Dropway.Proofs.ChatAddress
import Dropway.Proofs.SkillFrontmatter
import Dropway.Proofs.DomainRegistry
import Dropway.Proofs.ChunkText
import Dropway.Proofs.RebuildExact
import Dropway.Proofs.SlugAgreement
import Dropway.Proofs.ZipArchive
import Dropway.Proofs.OwnMarkup
import Dropway.Proofs.MarkdownBlocks
import Dropway.Proofs.MarkdownAgreement
import Dropway.Serve.Resolver
import Dropway.Proofs.HostOutcome
import Dropway.Api.Authz
import Dropway.Proofs.OldGrants
import Dropway.Api.StoredManifest
import Dropway.Proofs.CleanKeys
import Dropway.Proofs.StoredFiles
import Dropway.Proofs.DeployServed
import Dropway.Proofs.Listing
import Dropway.Api.ApiKeys
import Dropway.Proofs.KeyRevocation
import Dropway.Proofs.KeyBooks
import Dropway.Proofs.Generation
import Dropway.Proofs.SdkDeploy
import Dropway.Proofs.SdkRequests
