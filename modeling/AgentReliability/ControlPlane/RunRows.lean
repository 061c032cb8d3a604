import AgentReliability.Common.Guard
import AgentReliability.ControlPlane.Schema
import AgentReliability.ControlPlane.StateMachine
/-!
# The rows one run lock guards

Every transaction of the run services starts by taking the lock of one
`Run` row, and writes that run, its task and the rows that point at the
run. `RunRows` is that group of rows; a transaction is a function from it
to the rows it commits, or the error it aborts with. Both places that
create a task create exactly one run with it, so a group holds one task.

The file defines the steps the services share: the event writers
(`appendSyntheticEvent` and `RunControlService.event`), and the two
checked transitions (`transitionRun`, `transitionTask`).
-/

namespace AgentReliability

namespace ControlPlane

/-- The exceptions a handler may end with. -/
inductive ServiceError where
  | notFound (message : String)
  | conflict (message : String)
  | badRequest (message : String)
  | invalidTransition (entity source target : String)
  /-- `findUniqueOrThrow` and `update` on a row that is not there. -/
  | recordNotFound
  | uniqueViolation
  | foreignKeyViolation
  | invalidPayload
  | external (message : String)
  deriving DecidableEq, Repr

/-- The HTTP status of an exception: the framework's for its own
exceptions, 500 for any other. -/
def ServiceError.httpStatus : ServiceError → ℕ
  | notFound _ => 404
  | conflict _ => 409
  | badRequest _ => 400
  | _ => 500

/-- A registered fixture (`FixtureDefinition`). -/
structure Fixture where
  id : String
  title : String
  repoPath : String
  baseCommit : String
  taskSpec : TaskSpec

/-- `FixtureRegistry`: the loaded fixtures, each under its own id. -/
structure FixtureRegistry where
  find : String → Option Fixture
  id_of_find : ∀ {id fixture}, find id = some fixture → fixture.id = id

/-- What a transaction reads from outside the database. It reads the clock
once for the row it ends or sends, and once more, across its awaits, for
what the run's execution time is charged up to. -/
structure Env where
  now : Time
  /-- The `Date.now()` under the `Math.ceil` of the charge. -/
  chargedAt : Time := now
  /-- `LEASE_TTL_MS`. -/
  leaseTtlMs : ℤ
  /-- The token `randomUUID()` returns. -/
  leaseToken : LeaseToken
  fixtures : FixtureRegistry
  /-- `GitStore.resolve`: the commit a ref names in a repository. -/
  resolve : String → String → Option String
  /-- The task's `project.repoPath`. -/
  repoPath : String
  sha256 : String → String
  /-- `digestSnapshot`. -/
  digestSnapshot : TaskSnapshot → String
  /-- `ARP_PUBLIC_DEMO`. -/
  publicDemo : Bool := false

/-- The environment of a transaction on one run: its id, and the unique
columns of the rows of all runs. -/
structure Context extends Env where
  runId : RunId
  /-- Some committed event carries the key. -/
  keyTaken : EventKey → Bool
  /-- Some committed budget call carries the id. -/
  callTaken : CallId → Bool
  /-- Some committed attempt carries the id. -/
  attemptKnown : AttemptId → Bool

structure RunRows where
  task : Task
  run : Run
  attempts : List Attempt := []
  checkpoints : List Checkpoint := []
  outbox : List OutboxMessage := []
  policyDecisions : List PolicyDecision := []
  approvals : List Approval := []
  budgetCalls : List BudgetCall := []
  traceEvents : List TraceEvent := []
  artifacts : List Artifact := []
  verificationResults : List VerificationResult := []
  deriving DecidableEq, Repr

namespace RunRows

variable (r : RunRows)

/-- `findFirst({ orderBy: { no: 'desc' } })?.no ?? 0`. -/
def latestNo : ℕ := (r.attempts.map (·.no)).foldr max 0

/-- `findFirst({ orderBy: { createdAt: 'desc' } })?.id` over the run's
checkpoints. -/
def latestCheckpoint : Option CheckpointId :=
  if r.checkpoints.isEmpty then none else some (r.checkpoints.length - 1)

/-- Some call of the run is not `SETTLED`. -/
def unsettled : Bool := r.budgetCalls.any fun call => call.status ≠ .settled

/-- The run belongs to a confirmed snapshot. -/
def isSnapshot : Bool := r.task.snapshot.isSome

/-! ### Row updates -/

def createAttempt (a : Attempt) : RunRows := { r with attempts := r.attempts ++ [a] }

/-- `attempt.update` to a final status. -/
def endAttempt (i : ℕ) (status : AttemptStatus) (code : Option FailureCode) (now : Time) :
    RunRows :=
  { r with attempts := r.attempts.modify i fun a =>
      { a with status, failureCode := code.or a.failureCode, endedAt := some now } }

def setPhase (phase : String) : RunRows := { r with run := { r.run with phase } }

/-- A raw `run.update` of the status column. -/
def setStatus (status : RunStatus) : RunRows := { r with run := { r.run with status } }

def stopClock : RunRows := { r with run := { r.run with activeStartedAt := none } }

def addSeconds (seconds : ℤ) : RunRows :=
  { r with run := { r.run with usedSeconds := r.run.usedSeconds + seconds } }

def setUsedTokens (usedTokens : ℕ) : RunRows := { r with run := { r.run with usedTokens } }

/-- A raw `task.update` of the status column. -/
def setTask (status : TaskStatus) : RunRows := { r with task := { r.task with status } }

def setReason (attentionReason : Option String) : RunRows :=
  { r with task := { r.task with attentionReason } }

def send (payload : RunCommand) (notBefore : Time) : RunRows :=
  { r with outbox := r.outbox ++ [{ payload, notBefore }] }

def recordDecision (d : PolicyDecision) : RunRows :=
  { r with policyDecisions := r.policyDecisions ++ [d] }

def createApproval (patchDigest : Option String) : RunRows :=
  { r with approvals := r.approvals ++ [{ patchDigest }] }

def createArtifact (a : Artifact) : RunRows := { r with artifacts := r.artifacts ++ [a] }

def createCheckpoint (c : Checkpoint) : RunRows := { r with checkpoints := r.checkpoints ++ [c] }

end RunRows

/-! ## The event writers

All three writers of the event table take the next number of the run and
insert the event under it in one transaction. -/

/-- Increments `lastSequence` and inserts the event under the new number.
The insert aborts on either unique constraint of the table. -/
def recordEvent (ctx : Context) (r : RunRows) (attemptId : Option AttemptId)
    (attemptSequence : ℕ) (type : TraceEventType) (payload : TracePayload)
    (key : ℕ → EventKey) (occurredAt : Time) : Except ServiceError RunRows := do
  let sequence := r.run.lastSequence + 1
  require (ctx.keyTaken (key sequence) = false ∧
    ∀ e ∈ r.traceEvents, e.idempotencyKey ≠ key sequence ∧ e.runSequence ≠ sequence)
    ServiceError.uniqueViolation
  pure { r with
    run := { r.run with lastSequence := sequence }
    traceEvents := r.traceEvents ++ [{
      attemptId, runSequence := sequence, attemptSequence, type, payload
      idempotencyKey := key sequence, occurredAt }] }

/-- `RunLifecycleService.appendSyntheticEvent`. -/
def appendSyntheticEvent (ctx : Context) (type : TraceEventType) (payload : TracePayload)
    (attemptId : Option AttemptId) (r : RunRows) : Except ServiceError RunRows :=
  recordEvent ctx r attemptId 0 type payload (.platform ctx.runId) ctx.now

/-- `RunControlService.event`. -/
def controlEvent (ctx : Context) (source target : String) (r : RunRows) :
    Except ServiceError RunRows :=
  recordEvent ctx r none 0 .stateTransition (.stateTransition "run" source target)
    (.platform ctx.runId) ctx.now

/-- `RunLifecycleService.transitionRun`. -/
def transitionRun (ctx : Context) (source target : RunStatus) (r : RunRows) :
    Except ServiceError RunRows := do
  require (target ∈ source.transitions)
    (ServiceError.invalidTransition "run" source.name target.name)
  require (r.run.status = source)
    (ServiceError.conflict
      s!"Run {ctx.runId} 状态不是 {source.name}，迁移到 {target.name} 失败")
  appendSyntheticEvent ctx .stateTransition (.stateTransition "run" source.name target.name) none
    { r with run := { r.run with status := target } }

/-- `RunLifecycleService.transitionTask`. -/
def transitionTask (ctx : Context) (source target : TaskStatus) (r : RunRows) :
    Except ServiceError RunRows := do
  require (target ∈ source.transitions)
    (ServiceError.invalidTransition "task" source.name target.name)
  require (r.task.status = source)
    (ServiceError.conflict
      s!"Task {ctx.runId} 状态不是 {source.name}，迁移到 {target.name} 失败")
  pure { r with task := { r.task with status := target } }

/-! ## Commands -/

/-- `commandFromSnapshot`. A stored snapshot meets its schema and the
command built from it meets the command schema
(`commandFromSnapshot_valid`), so neither parse fails. -/
def commandFromSnapshot (snapshot : TaskSnapshot) (repoPath : String) (runId : RunId)
    (attemptNo : ℕ) (usedTokens : ℕ) (usedSeconds : ℤ) (checkpointId : Option CheckpointId) :
    RunCommand :=
  let type := if checkpointId.isSome then .resumeRun else .startRun
  { snapshot := some snapshot
    commandId := runCommandId runId type attemptNo
    type, runId, attemptNo
    agentKind := snapshot.agentKind
    repo := { path := repoPath, baseCommit := snapshot.executionSha }
    taskSpec := {
      fixtureId := none
      description := snapshot.description
      workdir := snapshot.config.workdir
      allowedPaths := snapshot.config.allowedPaths
      staticCheck := snapshot.config.staticCheck
      -- `[...new Set([...])]` keeps the first of each value, in order.
      failToPass := (snapshot.baseline.command :: snapshot.config.failToPass).eraseDups
      passToPass := snapshot.config.passToPass
      acceptanceCriteria := snapshot.config.acceptanceCriteria
      testPatch := none }
    budget := {
      tokens := snapshot.budget.tokens
      seconds := snapshot.budget.seconds
      turns := snapshot.budget.turns
      remainingTokens := snapshot.budget.tokens - usedTokens
      remainingSeconds := (snapshot.budget.seconds - usedSeconds).toNat }
    checkpointId }

/-- Every command built from a snapshot passes the command schema. -/
theorem commandFromSnapshot_valid (snapshot : TaskSnapshot) (repoPath : String) (runId : RunId)
    {attemptNo : ℕ} (hno : 0 < attemptNo) (usedTokens : ℕ) (usedSeconds : ℤ)
    (checkpointId : Option CheckpointId) :
    (commandFromSnapshot snapshot repoPath runId attemptNo usedTokens usedSeconds
      checkpointId).Valid :=
  ⟨hno, snapshot.budget.tokens_bounds.1, snapshot.budget.seconds_bounds.1,
    snapshot.budget.turns_bounds.1⟩

/-- `RunLifecycleService.buildRunCommand`: the command of a fixture run. -/
def buildRunCommand (ctx : Context) (run : Run) (type : RunCommandType) (attemptNo : ℕ)
    (fixtureId : String) (checkpointId : Option CheckpointId) (remainingTokens : ℕ)
    (remainingSeconds : ℕ) : Except ServiceError RunCommand := do
  let fixture ← orThrow (ctx.fixtures.find fixtureId)
    (ServiceError.notFound s!"未知 fixture: {fixtureId}")
  pure {
    snapshot := none
    commandId := runCommandId ctx.runId type attemptNo
    type, runId := ctx.runId, attemptNo
    agentKind := run.agentKind
    repo := { path := fixture.repoPath, baseCommit := fixture.baseCommit }
    taskSpec := fixture.taskSpec
    budget := {
      tokens := run.budgetTokens, seconds := run.budgetSeconds, turns := run.budgetTurns
      remainingTokens, remainingSeconds }
    checkpointId }

end ControlPlane

end AgentReliability
