import Regroup.Main
import Regroup.Memory.Service
import Regroup.Proofs.Attempt
import Regroup.Proofs.Resolution
import Regroup.Proofs.Sorting
import Regroup.Run.Rehearsal
import Regroup.Proofs.Numbering
import Regroup.Proofs.MemoryWorld
import Regroup.Proofs.TableWrites
import Regroup.Proofs.ChangeSet
import Regroup.Proofs.PlanSplit
import Regroup.Proofs.Course
import Regroup.Proofs.Repair
import Regroup.Proofs.Provisioning
import Regroup.Proofs.DryRun
import Regroup.Proofs.Forecast
import Regroup.Proofs.Idempotence
import Regroup.Proofs.Stamping
import Regroup.Proofs.VersionHistory
import Regroup.Proofs.Abandonment
import Regroup.Proofs.Statements
import Regroup.Proofs.Transcript
import Regroup.Proofs.Purity
import Regroup.Proofs.Conversation
import Regroup.Proofs.CommitGating
import Regroup.Proofs.GuardedUpdate
import Regroup.Proofs.LostUpdate
import Regroup.Proofs.Feasibility
import Regroup.Proofs.EdgeSeeding
import Regroup.Proofs.Upserts
import Regroup.Proofs.ByteOrder
import Regroup.Proofs.DefaultGroups
import Regroup.Proofs.Accounting
import Regroup.Proofs.Reservations
import Regroup.Proofs.RowKeys
import Regroup.Proofs.Isolation
import Regroup.Proofs.PartialRepair
import Regroup.Proofs.RowOrder
import Regroup.Proofs.Reordering
import Regroup.Proofs.CommandPurity
import Regroup.Proofs.Layering
import Regroup.Proofs.Preview
import Regroup.Proofs.UnreadKeys
import Regroup.Proofs.UnusedReport
import Regroup.Proofs.SecretGuard
import Regroup.Proofs.OrderedJson
import Regroup.Proofs.SettingsOverlay
import Regroup.Proofs.Belonging
import Regroup.Proofs.Classification
import Regroup.Proofs.Convergence
import Regroup.Proofs.VersionOrder
import Regroup.Proofs.BlockLimits
import Regroup.Proofs.BlockOverflow
import Regroup.Proofs.FlagPrecedence
import Regroup.Proofs.CanonicalText
