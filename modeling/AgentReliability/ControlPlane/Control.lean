import AgentReliability.ControlPlane.Lifecycle
/-!
# Run control, the budget ledger and the other writers

The transactions of `RunControlService` (the lease fence, phase,
environment, pause, cancel, resume) and of `BudgetService` (reserve,
settle), the insert of `TraceEventIngestor`, and the row updates of
`OutboxPublisher`.
-/

namespace AgentReliability

namespace ControlPlane

/-! ## The lease fence -/

/-- The execution time of the run is used up, at the precision of the
clock. -/
def timeExhausted (ctx : Context) (run : Run) : Bool :=
  match run.activeStartedAt with
  | some started => run.budgetSeconds * 1000 ≤ run.usedSeconds * 1000 + (ctx.now - started)
  | none => false

/-- `RunControlService.lease`, on the attempt and the run it read. -/
def lease (ctx : Context) (token : Option LeaseToken) (checkTime : Bool) (a : Attempt) (run : Run) :
    Except ServiceError Unit := do
  require (token.isSome ∧ token = a.leaseToken ∧ a.status = .running ∧ a.leaseLive ctx ∧
      run.status ∈ [.running, .verifying])
    (ServiceError.conflict "Lease expired or task stopped")
  require (¬ (checkTime ∧ (expired ctx run ∨ timeExhausted ctx run)))
    (ServiceError.conflict "Task execution time exhausted")

/-- `RunControlService.withLease`: the operation runs under the run lock,
after a fence on the rows read there. -/
def withLease (ctx : Context) (i : ℕ) (token : Option LeaseToken) (checkTime : Bool)
    (operation : RunRows → Except ServiceError RunRows) (r : RunRows) :
    Except ServiceError RunRows := do
  let a ← orThrow r.attempts[i]? ServiceError.recordNotFound
  lease ctx token checkTime a r.run
  operation r

/-- The phases the controller accepts. -/
inductive Phase where
  | preparing | reproducing | repairing | verifying | baseline
  deriving DecidableEq, Repr

def Phase.name : Phase → String
  | preparing => "PREPARING"
  | reproducing => "REPRODUCING"
  | repairing => "REPAIRING"
  | verifying => "VERIFYING"
  | baseline => "BASELINE"

/-- `${phase.toLowerCase()}.json`. -/
def Phase.fileName : Phase → String
  | preparing => "preparing.json"
  | reproducing => "reproducing.json"
  | repairing => "repairing.json"
  | verifying => "verifying.json"
  | baseline => "baseline.json"

/-- `RunControlService.phase`. -/
def phase (ctx : Context) (i : ℕ) (token : Option LeaseToken) (phase : Phase)
    (detail : Option String) (r : RunRows) : Except ServiceError RunRows :=
  withLease ctx i token true (fun r =>
    let r' := r.setPhase phase.name
    let r' := match detail with
      | some content => r'.createArtifact {
          attemptId := ⟨ctx.runId, i⟩, kind := .testReport, name := phase.fileName, content
          sizeBytes := content.utf8ByteSize }
      | none => r'
    controlEvent ctx r.run.phase phase.name r') r

/-- The run's part of `RunControlService.environment`, once the upsert
has resolved the fingerprint to the version `environmentId`, whose image
is `resolved`. -/
def environment (ctx : Context) (i : ℕ) (token : Option LeaseToken) (imageId : String)
    (environmentId : ℕ) (resolved : Option String) (r : RunRows) : Except ServiceError RunRows :=
  withLease ctx i token true (fun r => do
    require (∀ pinned ∈ r.run.imageId, pinned = "" ∨ pinned = imageId)
      (ServiceError.conflict "Pinned environment image changed")
    require (resolved = some imageId)
      (ServiceError.conflict "Environment fingerprint resolved to a different image")
    pure { r with run := { r.run with
      environmentId := some environmentId, imageId := some imageId } }) r

/-- `RunControlService.pause`. -/
def pause (ctx : Context) (i : ℕ) (token : Option LeaseToken) (reason : String)
    (patch : Option String) (r : RunRows) : Except ServiceError RunRows :=
  withLease ctx i token false (fun r =>
    let r' := (((r.setStatus .interrupted).setPhase "NEEDS_ATTENTION").addSeconds
      (activeSeconds ctx r.run)).stopClock
    let r' := ((r'.endAttempt i .failed none ctx.now).setTask .needsAttention).setReason
      (some reason)
    let r' := match patch.filter (· ≠ "") with
      | some content => r'.createArtifact {
          attemptId := ⟨ctx.runId, i⟩, kind := .patch, name := "candidate.patch", content
          sizeBytes := content.utf8ByteSize }
      | none => r'
    controlEvent ctx r.run.status.name RunStatus.interrupted.name r') r

/-- Ends every attempt that is still executing (`attempt.updateMany`). -/
def stopAttempts (ctx : Context) (r : RunRows) : RunRows :=
  { r with attempts := r.attempts.map fun a =>
      if a.status = .running ∨ a.status = .claimed then
        { a with status := .failed, failureCode := some .cancelledByUser, endedAt := some ctx.now }
      else a }

/-- `RunControlService.cancel`. -/
def cancel (ctx : Context) (r : RunRows) : Except ServiceError RunRows :=
  if r.run.status = .cancelled then pure r
  else do
    require (r.run.status ≠ .succeeded ∧ r.run.status ≠ .failed)
      (ServiceError.conflict "Run is terminal")
    let r' := (((r.setStatus .cancelled).setPhase "CANCELLED").addSeconds
      (activeSeconds ctx r.run)).stopClock
    controlEvent ctx r.run.status.name RunStatus.cancelled.name
      (stopAttempts ctx (r'.setTask .cancelled))

/-- The reasons a run cannot go on from: its contract has to be revised. -/
def contractReasons : List String := ["NOT_REPRODUCED", "EVIDENCE_MISMATCH", "CONTRACT_CHANGED"]

/-- `RunControlService.resume`. -/
def resume (ctx : Context) (r : RunRows) : Except ServiceError RunRows := do
  require (r.run.status = .interrupted)
    (ServiceError.conflict "Only paused snapshot tasks can resume")
  let snapshot ← orThrow r.task.snapshot
    (ServiceError.conflict "Only paused snapshot tasks can resume")
  require (r.run.usedTokens < r.run.budgetTokens ∧ r.run.usedSeconds < r.run.budgetSeconds ∧
      r.attempts.length < r.run.maxAttempts ∧ r.unsettled = false ∧ expired ctx r.run = false)
    (ServiceError.conflict "Budget, attempts or unresolved usage prevents resume")
  require (r.task.attentionReason.getD "" ∉ contractReasons)
    (ServiceError.conflict "Revise the acceptance contract in a new task")
  let command := commandFromSnapshot snapshot ctx.repoPath ctx.runId (r.latestNo + 1)
    r.run.usedTokens r.run.usedSeconds r.latestCheckpoint
  let r' := ((((r.setStatus .dispatched).setPhase "QUEUED").setTask .queued).setReason none).send
    command ctx.now
  controlEvent ctx r.run.status.name RunStatus.dispatched.name r'

/-! ## The budget ledger -/

/-- What a call counts for: its use once known, its reservation before. -/
def BudgetCall.charge (call : BudgetCall) : ℕ := call.used.getD call.reserved

/-- The sum of the charges (the `reduce` of `availableBudget` and of
`settle`). -/
def charges (calls : List BudgetCall) : ℕ := (calls.map BudgetCall.charge).sum

/-- `availableBudget`. -/
def availableBudget (limit : ℕ) (calls : List BudgetCall) : ℕ := limit - charges calls

/-- The time budget as `reserve` reads it. -/
def elapsedExhausted (ctx : Context) (run : Run) : Bool :=
  match run.activeStartedAt with
  | some started => run.budgetSeconds * 1000 ≤ run.usedSeconds * 1000 + (ctx.now - started)
  | none => run.budgetSeconds ≤ run.usedSeconds

/-- `BudgetService.reserve`. The token is a field of a Prisma filter, and a
header that was not sent drops out of it: such a request finds the attempt
whatever its token is. -/
def reserve (ctx : Context) (attemptId : AttemptId) (token : Option LeaseToken) (id : CallId)
    (reserved : ℕ) (r : RunRows) : Except ServiceError RunRows := do
  let invalid := ServiceError.conflict "Execution lease is no longer valid"
  require (attemptId.runId = ctx.runId) invalid
  let a ← orThrow r.attempts[attemptId.index]? invalid
  require ((∀ sent ∈ token, a.leaseToken = some sent) ∧ a.status = .running ∧ a.leaseLive ctx ∧
    r.run.status ∈ [.running, .verifying]) invalid
  require (expired ctx r.run = false) (ServiceError.conflict "Task expired")
  require (elapsedExhausted ctx r.run = false)
    (ServiceError.conflict "Task time budget exhausted")
  require (ctx.callTaken id = false)
    (ServiceError.conflict "Model request already reserved; reconcile instead of repeating it")
  require (reserved ≤ availableBudget r.run.budgetTokens r.budgetCalls)
    (ServiceError.conflict "Task token budget exhausted")
  pure { r with budgetCalls := r.budgetCalls ++ [{ id, reserved }] }

/-- The update of one call by `settle`. -/
def BudgetCall.settleWith (used : Option ℕ) (call : BudgetCall) : BudgetCall :=
  { call with used, status := if used.isNone then .unknown else .settled }

/-- The update by `settle` of the call with the given id. -/
def settleCall (id : CallId) (used : Option ℕ) (calls : List BudgetCall) : List BudgetCall :=
  calls.map fun call => if call.id = id then call.settleWith used else call

/-- `BudgetService.settle`. It takes no lease: usage may be reported after
the attempt has ended. -/
def settle (ctx : Context) (id : CallId) (used : Option ℕ) (r : RunRows) :
    Except ServiceError RunRows :=
  match r.budgetCalls.find? (·.id = id) with
  | none =>
    throw (if ctx.callTaken id then .conflict "Call belongs to another task" else .recordNotFound)
  | some call =>
    if call.status = .settled then do
      require (call.used = used) (ServiceError.conflict "Conflicting model usage")
      pure r
    else
      let r := { r with budgetCalls := settleCall id used r.budgetCalls }
      pure (r.setUsedTokens (charges r.budgetCalls))

/-! ## Event ingestion -/

/-- A `TraceEvent` message a runtime sent. -/
structure ReportedEvent where
  attemptId : AttemptId
  attemptSequence : ℕ
  type : TraceEventType
  payload : String
  idempotencyKey : EventKey
  occurredAt : Time

/-- The transaction of `TraceEventIngestor.handleEntry`. -/
def ingest (ctx : Context) (event : ReportedEvent) (r : RunRows) : Except ServiceError RunRows := do
  let r ← recordEvent ctx r (some event.attemptId) event.attemptSequence event.type
    (.reported event.payload) (fun _ => event.idempotencyKey) event.occurredAt
  -- The foreign key is checked at the end of the insert, after the unique constraints.
  require (ctx.attemptKnown event.attemptId) ServiceError.foreignKeyViolation
  pure r

/-! ## The outbox -/

/-- An update of one outbox message. -/
def updateMessage (j : ℕ) (f : OutboxMessage → OutboxMessage) (r : RunRows) :
    Except ServiceError RunRows := do
  require (j < r.outbox.length) ServiceError.recordNotFound
  pure { r with outbox := r.outbox.modify j f }

/-- The mark after a successful XADD. -/
def markPublished (ctx : Context) (j : ℕ) : RunRows → Except ServiceError RunRows :=
  updateMessage j fun m => { m with status := .published, publishedAt := some ctx.now }

/-- The count after a failed publication. -/
def countFailure (j : ℕ) : RunRows → Except ServiceError RunRows :=
  updateMessage j fun m => { m with attempts := m.attempts + 1 }

/-- The reconciliation of a run that waits too long for its claim. -/
def republish (j : ℕ) : RunRows → Except ServiceError RunRows :=
  updateMessage j fun m => { m with status := .pending }

end ControlPlane

end AgentReliability
