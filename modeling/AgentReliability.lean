import AgentReliability.ControlPlane.Statuses
import AgentReliability.ControlPlane.EventLog
import AgentReliability.ControlPlane.Dispatch
import AgentReliability.ControlPlane.Fencing
import AgentReliability.Common.Reservation
import AgentReliability.ControlPlane.Ledger
import AgentReliability.ControlPlane.Allowance
import AgentReliability.ControlPlane.Discard
import AgentReliability.Common.Cursor
import AgentReliability.Common.StringNumber
import AgentReliability.ControlPlane.Sse
import AgentReliability.Common.Program
import AgentReliability.Runtime.CallsCharged
import AgentReliability.Runtime.SelfAgent
import AgentReliability.Runtime.Recovery
import AgentReliability.Runtime.Replay
import AgentReliability.Common.PythonText
import AgentReliability.Runtime.Checkout
import AgentReliability.Runtime.Verifier
import AgentReliability.Runtime.Gates
import AgentReliability.Runtime.Verdict
import AgentReliability.ControlPlane.Writes
import AgentReliability.ControlPlane.StatusLog
import AgentReliability.ControlPlane.Confirmation
import AgentReliability.ControlPlane.FrozenInput
import AgentReliability.Common.Table
import AgentReliability.ControlPlane.Delivery
import AgentReliability.ControlPlane.Reviewed
import AgentReliability.ControlPlane.Review
import AgentReliability.ControlPlane.DeliveryQueue
import AgentReliability.ControlPlane.Approved
import AgentReliability.Runtime.Worker
import AgentReliability.ControlPlane.StatusTrace
import AgentReliability.ControlPlane.Transitions
import AgentReliability.Runtime.Spool
import AgentReliability.Common.Routing
import AgentReliability.ControlPlane.Authorization
import AgentReliability.Common.JsonSchema
import AgentReliability.Shared.TaskSnapshot
import AgentReliability.Shared.RunCommand
import AgentReliability.Runtime.Coverage
import AgentReliability.ControlPlane.FixtureReview
import AgentReliability.ControlPlane.Clock
import AgentReliability.ControlPlane.TimeLedger
import AgentReliability.ControlPlane.TimeFence
import AgentReliability.ControlPlane.EventKeys
import AgentReliability.ControlPlane.Ingestion
import AgentReliability.Common.Meter
import AgentReliability.Runtime.AgentLoop
import AgentReliability.Runtime.TokenBudget
import AgentReliability.ControlPlane.Usage
import AgentReliability.Runtime.Metering
import AgentReliability.Web.Timeline
import AgentReliability.ControlPlane.LeaseMonitor
import AgentReliability.ControlPlane.Consumer
import AgentReliability.Common.Traces
import AgentReliability.Runtime.Executor
import AgentReliability.Runtime.TestsRun
import AgentReliability.Common.ShellReading
import AgentReliability.Common.PythonWords
import AgentReliability.Runtime.Guard
import AgentReliability.Common.PythonJson
import AgentReliability.Common.StateGraph
import AgentReliability.Runtime.Conversation
import AgentReliability.Runtime.Graph
import AgentReliability.Runtime.Rounds
import AgentReliability.Common.FileTree
import AgentReliability.Runtime.ReadTools
import AgentReliability.Common.Hex
import AgentReliability.ControlPlane.WebhookSignature
import AgentReliability.Common.PrefixCode
import AgentReliability.Common.JsonString
import AgentReliability.ControlPlane.SnapshotDigest
import AgentReliability.Runtime.EvidenceFlush
import AgentReliability.Runtime.ReadWindow
import AgentReliability.Common.Utf8
import AgentReliability.Runtime.GitDiff
import AgentReliability.Runtime.PatchStats
import AgentReliability.Runtime.DiffEngine
import AgentReliability.Runtime.PatchCapture
import AgentReliability.Common.Interference
import AgentReliability.ControlPlane.Deliver
import AgentReliability.ControlPlane.Delivered
import AgentReliability.Common.Potential
import AgentReliability.ControlPlane.RunLife
import AgentReliability.ControlPlane.Leases
import AgentReliability.ControlPlane.RunRest
import AgentReliability.Runtime.EnvironmentBuild
import AgentReliability.Runtime.FakeScript
import AgentReliability.ControlPlane.Environments
import AgentReliability.ControlPlane.PublicDemo
import AgentReliability.ControlPlane.TaskPages
import AgentReliability.Web.TaskList
import AgentReliability.Common.Masking
import AgentReliability.ControlPlane.JobLog
import AgentReliability.Runtime.Condenser
import AgentReliability.ControlPlane.Drafts
import AgentReliability.Runtime.TraceEvents
import AgentReliability.ControlPlane.IssueCommand
