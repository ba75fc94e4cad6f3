import Stillflow.Core.CompleteRedaction
import Stillflow.Core.JoinLaws
import Stillflow.Core.Telemetry
import Stillflow.Plan.FaultOrder
import Stillflow.Plan.PlanAcceptance
import Stillflow.Plan.SnapshotBudget
import Stillflow.Engine.BuilderSchema
import Stillflow.Engine.CompactedColumns
import Stillflow.Engine.Deduplication
import Stillflow.Engine.EnvelopeSlots
import Stillflow.Engine.FindingAgreement
import Stillflow.Engine.NullSoundness
import Stillflow.Engine.PlanBound
import Stillflow.Engine.Preflight
import Stillflow.Engine.ProfileKeys
import Stillflow.Engine.Quality
import Stillflow.Engine.RuntimeFailure
import Stillflow.Engine.SortAccounting
import Stillflow.Storage.AuditQuery
import Stillflow.Storage.Listings
import Stillflow.Storage.LostUpdates
import Stillflow.Storage.Preimages
import Stillflow.Storage.RecoverySchedules
import Stillflow.Identity.Freshness
import Stillflow.Identity.Revocation
import Stillflow.Automation.InOrder
import Stillflow.Automation.NeverWedged
