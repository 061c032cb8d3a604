import AgentReliability.ControlPlane.Enums
import Mathlib.Algebra.Ring.Int.Defs
import Mathlib.Algebra.Ring.Nat
import Mathlib.Tactic.Common
/-!
# Rows, snapshots and commands

The tables of `prisma/schema.prisma` that the run services read and
write, and the two shared schemas their rows carry as JSON:
`TaskSnapshotSchema` and `RunCommandSchema`. A generated key is the
position its row was created at: a run's in the run table, an attempt's,
a checkpoint's and an outbox message's among the rows of its run. So
`orderBy: { createdAt: 'desc' }` with `findFirst` is the last row.
Times are milliseconds.
-/

namespace AgentReliability

namespace ControlPlane

abbrev RunId := ℕ
abbrev CheckpointId := ℕ
abbrev CallId := ℕ
abbrev LeaseToken := ℕ
abbrev Time := ℤ

/-- An attempt's key: its run, and the position it was created at there. -/
structure AttemptId where
  runId : RunId
  index : ℕ
  deriving DecidableEq, Repr

/-! ## The frozen input of a task -/

/-- `RepositoryConfigSchema`, the fields a command is built from. -/
structure RepositoryConfig where
  workdir : String
  allowedPaths : List String
  staticCheck : List String
  failToPass : List String
  passToPass : List String
  acceptanceCriteria : List String
  deriving DecidableEq, Repr

/-- `TaskSnapshotSchema.baseline`. -/
structure Baseline where
  command : String
  expected : List String
  deriving DecidableEq, Repr

/-- `TaskSnapshotSchema.budget`, with the bounds the schema checks. A
snapshot row holds what the schema accepted, so parsing it again
succeeds. -/
structure SnapshotBudget where
  tokens : ℕ
  seconds : ℕ
  turns : ℕ
  maxAttempts : ℕ
  tokens_bounds : 0 < tokens ∧ tokens ≤ 10000000
  seconds_bounds : 0 < seconds ∧ seconds ≤ 86400
  turns_bounds : 0 < turns ∧ turns ≤ 1000
  maxAttempts_bounds : 0 < maxAttempts ∧ maxAttempts ≤ 20
  deriving DecidableEq, Repr

/-- `TaskSnapshotSchema.source`. -/
structure SnapshotSource where
  prUrl : String
  headSha : String
  deriving DecidableEq, Repr

/-- `TaskSnapshotSchema.delivery`. -/
structure SnapshotDelivery where
  kind : DeliveryKind
  targetBranch : String
  expectedTargetSha : String
  deriving DecidableEq, Repr

structure TaskSnapshot where
  repositoryId : String
  parentTaskId : Option String
  executionSha : String
  agentKind : AgentKind
  title : String
  description : String
  config : RepositoryConfig
  baseline : Baseline
  budget : SnapshotBudget
  delivery : SnapshotDelivery
  source : Option SnapshotSource
  deriving DecidableEq, Repr

/-! ## The command a worker is sent -/

structure TaskSpec where
  fixtureId : Option String
  description : String
  workdir : String
  allowedPaths : List String
  staticCheck : List String
  failToPass : List String
  passToPass : List String
  acceptanceCriteria : List String
  testPatch : Option String
  deriving DecidableEq, Repr

structure Repo where
  path : String
  baseCommit : String
  deriving DecidableEq, Repr

structure Budget where
  tokens : ℕ
  seconds : ℕ
  turns : ℕ
  remainingTokens : ℕ
  remainingSeconds : ℕ
  deriving DecidableEq, Repr

/-- `cmd:${runId}:${type}:${attemptNo}`, by its parts. Run ids hold no
colon, so two command ids are equal when their parts are. -/
structure CommandId where
  runId : RunId
  type : RunCommandType
  attemptNo : ℕ
  deriving DecidableEq, Repr

/-- `runCommandId`. -/
def runCommandId (runId : RunId) (type : RunCommandType) (attemptNo : ℕ) : CommandId :=
  ⟨runId, type, attemptNo⟩

structure RunCommand where
  snapshot : Option TaskSnapshot
  commandId : CommandId
  type : RunCommandType
  runId : RunId
  attemptNo : ℕ
  agentKind : AgentKind
  repo : Repo
  taskSpec : TaskSpec
  budget : Budget
  checkpointId : Option CheckpointId
  deriving DecidableEq, Repr

/-- What `RunCommandSchema.parse` checks beyond the types. -/
def RunCommand.Valid (c : RunCommand) : Prop :=
  0 < c.attemptNo ∧ 0 < c.budget.tokens ∧ 0 < c.budget.seconds ∧ 0 < c.budget.turns

instance (c : RunCommand) : Decidable c.Valid := by
  unfold RunCommand.Valid; infer_instance

/-! ## The tables -/

structure Task where
  title : String
  description : String
  sourceRef : Option String
  fixtureId : Option String
  status : TaskStatus
  allowedPaths : List String
  snapshot : Option TaskSnapshot
  snapshotDigest : Option String
  confirmationKey : Option String
  parentTaskId : Option String
  attentionReason : Option String
  createdAt : Time
  deriving DecidableEq, Repr

structure Run where
  agentKind : AgentKind
  status : RunStatus := .pending
  baseCommit : String
  maxAttempts : ℕ := 3
  budgetTokens : ℕ := 200000
  budgetSeconds : ℕ := 900
  budgetTurns : ℕ := 30
  usedTokens : ℕ := 0
  usedSeconds : ℤ := 0
  lastSequence : ℕ := 0
  recoveryDisabled : Bool := false
  feedbackMode : String := "structured"
  phase : String := "QUEUED"
  environmentId : Option ℕ := none
  imageId : Option String := none
  activeStartedAt : Option Time := none
  deadlineAt : Option Time := none
  deriving DecidableEq, Repr

structure Attempt where
  no : ℕ
  workerId : String
  status : AttemptStatus
  failureCode : Option FailureCode := none
  leaseExpiresAt : Option Time
  leaseToken : Option LeaseToken
  endedAt : Option Time := none
  deriving DecidableEq, Repr

/-- The payload column, by the shapes the control plane writes; a payload
a runtime reported is kept as its text. -/
inductive TracePayload where
  | stateTransition (entity source target : String)
  | recoveryAction (action : PolicyAction) (fromCheckpointId : Option CheckpointId)
      (newAttemptNo : ℕ)
  | approvalEvent (status : ApprovalStatus) (reviewer prUrl : Option String)
  | reported (text : String)
  deriving DecidableEq, Repr

/-- `idempotencyKey`. The control plane writes `cp:${runId}:${sequence}`;
a runtime may send any text, one of that form included. -/
inductive EventKey where
  | platform (runId : RunId) (sequence : ℕ)
  | text (key : String)
  deriving DecidableEq, Repr

structure TraceEvent where
  attemptId : Option AttemptId
  runSequence : ℕ
  attemptSequence : ℕ
  type : TraceEventType
  payload : TracePayload
  idempotencyKey : EventKey
  occurredAt : Time
  deriving DecidableEq, Repr

structure Checkpoint where
  /-- The attempt that wrote it. -/
  attemptId : AttemptId
  threadId : String
  baseCommit : String
  appliedPatchSha : Option String
  appliedPatch : Option String
  completedToolCalls : List (String × String)
  usedTokens : ℕ
  usedSeconds : ℕ
  deriving DecidableEq, Repr

structure Artifact where
  attemptId : AttemptId
  kind : ArtifactKind
  name : String
  content : String
  sizeBytes : ℕ
  deriving DecidableEq, Repr

structure VerificationResult where
  attemptId : AttemptId
  step : VerifierStep
  passed : Bool
  failureCode : Option FailureCode
  detail : String
  durationMs : ℕ
  deriving DecidableEq, Repr

structure PolicyDecision where
  attemptId : AttemptId
  failureCode : FailureCode
  action : PolicyAction
  reason : String
  deriving DecidableEq, Repr

structure Approval where
  status : ApprovalStatus := .pending
  patchDigest : Option String
  reviewer : Option String := none
  decidedAt : Option Time := none
  prUrl : Option String := none
  prError : Option String := none
  deriving DecidableEq, Repr

/-- A `DeliveryJob`. `taskId` is unique among the approvals, so an approval
is named by its run. -/
structure DeliveryJob where
  approvalId : RunId
  status : JobStatus := .queued
  attempts : ℕ := 0
  patchDigest : String
  branch : String
  commitSha : Option String := none
  prUrl : Option String := none
  error : Option String := none
  leaseToken : Option LeaseToken := none
  leaseExpiresAt : Option Time := none
  deriving DecidableEq, Repr

structure BudgetCall where
  id : CallId
  reserved : ℕ
  used : Option ℕ := none
  status : BudgetCallStatus := .reserved
  deriving DecidableEq, Repr

structure OutboxMessage where
  payload : RunCommand
  status : OutboxStatus := .pending
  attempts : ℕ := 0
  publishedAt : Option Time := none
  notBefore : Time
  deriving DecidableEq, Repr

structure EnvironmentVersion where
  fingerprint : String
  status : String
  imageId : Option String
  log : String
  deriving DecidableEq, Repr

/-- `Math.ceil(ms / 1000)`. -/
def ceilSeconds (ms : ℤ) : ℤ := -(-ms / 1000)

@[simp] theorem ceilSeconds_zero : ceilSeconds 0 = 0 := rfl

end ControlPlane

end AgentReliability
