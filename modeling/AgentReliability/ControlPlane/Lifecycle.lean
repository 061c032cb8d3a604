import AgentReliability.ControlPlane.Policy
import AgentReliability.ControlPlane.RunRows
/-!
# The run lifecycle

The transactions of `RunLifecycleService` on an existing run: a worker
claims the next attempt, renews its lease, saves checkpoints and reports
the end of the attempt; the lease monitor ends an attempt whose worker is
lost; and `applyPolicy` decides what follows a failure.

What a handler read before its transaction is passed in: `seen` are the
run's rows at that earlier moment.
-/

namespace AgentReliability

namespace ControlPlane

/-! ## Claim and heartbeat -/

structure ClaimInput where
  runId : RunId
  attemptNo : ℕ
  workerId : String

/-- The transaction of `claimAttempt`. -/
def claimAttempt (ctx : Context) (seen : RunRows) (input : ClaimInput) (r : RunRows) :
    Except ServiceError RunRows := do
  require (r.run.status = .dispatched ∧ input.attemptNo = r.latestNo + 1 ∧
      input.attemptNo ≤ r.run.maxAttempts)
    (ServiceError.conflict "Attempt is not dispatchable")
  let r := r.createAttempt {
    no := input.attemptNo
    workerId := input.workerId
    status := .running
    leaseExpiresAt := some (ctx.now + ctx.leaseTtlMs)
    leaseToken := some ctx.leaseToken }
  let r ← transitionRun ctx .dispatched .running r
  let r := { r with run := { r.run with
    activeStartedAt := some (seen.run.activeStartedAt.getD ctx.now) } }
  if r.task.status = .queued then transitionTask ctx .queued .running r else pure r

/-- The update of `heartbeat`. -/
def heartbeat (ctx : Context) (i : ℕ) (r : RunRows) : Except ServiceError RunRows := do
  let gone := ServiceError.conflict s!"Attempt {i} 不在可续租状态（可能已被判定 LEASE_EXPIRED）"
  let a ← orThrow r.attempts[i]? gone
  require (a.status = .claimed ∨ a.status = .running) gone
  pure { r with attempts := r.attempts.modify i fun a =>
    { a with leaseExpiresAt := some (ctx.now + ctx.leaseTtlMs) } }

/-! ## The recovery policy -/

/-- The `ceil` of the seconds since the clock was started, 0 if it is not
running. The charge reads the time anew. -/
def activeSeconds (ctx : Context) (run : Run) : ℤ :=
  match run.activeStartedAt with
  | some started => ceilSeconds (ctx.chargedAt - started)
  | none => 0

/-- `applyPolicy`, lines 510–515: charges a snapshot run for the time since
its clock was started. -/
def chargeActive (ctx : Context) (r : RunRows) : RunRows :=
  if r.isSnapshot ∧ r.run.activeStartedAt.isSome then
    (r.addSeconds (activeSeconds ctx r.run)).stopClock
  else r

/-- A deadline that has passed. -/
def expired (ctx : Context) (run : Run) : Bool :=
  match run.deadlineAt with
  | some deadline => deadline ≤ ctx.now
  | none => false

/-- `applyPolicy`, line 519: unsettled usage or a spent budget. -/
def budgetStops (ctx : Context) (r : RunRows) : Bool :=
  r.unsettled || r.run.budgetTokens ≤ r.run.usedTokens ||
    r.run.budgetSeconds ≤ r.run.usedSeconds + activeSeconds ctx r.run || expired ctx r.run

/-- The decision: the table's, unless recovery is disabled for the run. -/
def policyDecision (r : RunRows) (attemptNo : ℕ) (code : FailureCode) : PolicyDecisionResult :=
  if r.run.recoveryDisabled then
    { action := .abort, backoffMs := 0
      reason := s!"{code.name} @ attempt {attemptNo} -> ABORT（--no-recovery 实验：恢复已禁用）" }
  else decidePolicy { failureCode := code, attemptNo, maxAttempts := r.run.maxAttempts }

/-- The command of the attempt after a failure. A fixture run keeps the
repository and the task spec of its first command. -/
def retryCommand (ctx : Context) (r : RunRows) (action : PolicyAction) (attemptNo : ℕ)
    (checkpoint : Option CheckpointId) : Except ServiceError RunCommand :=
  match r.task.snapshot with
  | some snapshot =>
    pure (commandFromSnapshot snapshot ctx.repoPath ctx.runId attemptNo r.run.usedTokens
      r.run.usedSeconds checkpoint)
  | none => do
    let type := if action = .resume ∧ checkpoint.isSome then .resumeRun else .startRun
    let command ← buildRunCommand ctx r.run type attemptNo (r.task.fixtureId.getD "fake")
      checkpoint (r.run.budgetTokens - r.run.usedTokens)
      (r.run.budgetSeconds - r.run.usedSeconds).toNat
    match r.outbox.head? with
    | none => pure command
    | some original =>
      require original.payload.Valid ServiceError.invalidPayload
      pure { command with repo := original.payload.repo, taskSpec := original.payload.taskSpec }

/-- `applyPolicy`, lines 538–546: the backoff a snapshot run is charged
for, and what the budget allows after it. -/
def chargeBackoff (backoffMs : ℕ) (r : RunRows) : RunRows :=
  if r.isSnapshot then (r.addSeconds (ceilSeconds backoffMs)).setPhase "QUEUED" else r

/-- `applyPolicy`, lines 547–590: sends the command of the next attempt. -/
def redispatch (ctx : Context) (i attemptNo : ℕ) (decision : PolicyDecisionResult) (r : RunRows) :
    Except ServiceError RunRows := do
  let checkpoint := if decision.action = .resume then r.latestCheckpoint else none
  let r ← transitionRun ctx .interrupted .recovering r
  let command ← retryCommand ctx r decision.action (attemptNo + 1) checkpoint
  let r := r.send command (ctx.now + decision.backoffMs)
  let r ← appendSyntheticEvent ctx .recoveryAction
    (.recoveryAction decision.action checkpoint (attemptNo + 1)) (some ⟨ctx.runId, i⟩) r
  transitionRun ctx .recovering .dispatched r

/-- `applyPolicy`, lines 537–591. -/
def retry (ctx : Context) (i attemptNo : ℕ) (decision : PolicyDecisionResult) (r : RunRows) :
    Except ServiceError RunRows :=
  let r := chargeBackoff decision.backoffMs r
  if r.isSnapshot ∧ r.run.budgetSeconds ≤ r.run.usedSeconds then
    pure (((r.setPhase "NEEDS_ATTENTION").setTask .needsAttention).setReason
      (some "BUDGET_EXHAUSTED"))
  else redispatch ctx i attemptNo decision r

/-- `applyPolicy`, lines 593–600. -/
def abortRun (ctx : Context) (r : RunRows) : Except ServiceError RunRows := do
  let r ← transitionRun ctx .interrupted .failed (r.setPhase "FAILED").stopClock
  if r.task.status = .running then transitionTask ctx .running .failed r else pure r

/-- `applyPolicy`, lines 602–604: the run waits for a person. -/
def escalate (code : FailureCode) (r : RunRows) : RunRows :=
  (((r.setPhase "NEEDS_ATTENTION").stopClock).setTask .needsAttention).setReason (some code.name)

/-- `RunLifecycleService.applyPolicy`. -/
def applyPolicy (ctx : Context) (i attemptNo : ℕ) (code : FailureCode) (r : RunRows) :
    Except ServiceError RunRows :=
  let r := chargeActive ctx r
  if r.isSnapshot ∧ budgetStops ctx r then
    pure (((((r.setPhase "NEEDS_ATTENTION").addSeconds (activeSeconds ctx r.run)).stopClock).setTask
      .needsAttention).setReason
        (some (if r.unsettled then "MODEL_USAGE_UNKNOWN" else "BUDGET_EXHAUSTED")))
  else
    let decision := policyDecision r attemptNo code
    let r := r.recordDecision {
      attemptId := ⟨ctx.runId, i⟩, failureCode := code, action := decision.action
      reason := decision.reason }
    match decision.action with
    | .resume => retry ctx i attemptNo decision r
    | .restartAttempt => retry ctx i attemptNo decision r
    | .abort => abortRun ctx r
    | .escalateHuman => pure (escalate code r)

/-! ## The end of an attempt -/

structure VerificationReport where
  step : VerifierStep
  passed : Bool
  failureCode : Option FailureCode
  detail : String
  durationMs : ℕ

/-- What a worker reports beside the status. -/
structure CompleteExtras where
  usedTokens : Option ℕ := none
  usedSeconds : Option ℕ := none
  verification : List VerificationReport := []
  patch : Option String := none
  judge : Option String := none

inductive Outcome where
  | succeeded (extras : CompleteExtras)
  | failed (failureCode : FailureCode) (extras : CompleteExtras)

/-- A patch that is there and not empty. -/
def CompleteExtras.patch? (extras : CompleteExtras) : Option String :=
  extras.patch.filter (· ≠ "")

/-- `persistExtras`, lines 297–303: a snapshot run is charged by the clock
and the clock is stopped. -/
def persistClock (ctx : Context) (seen r : RunRows) : RunRows :=
  if seen.isSnapshot then (r.addSeconds (activeSeconds ctx r.run)).stopClock else r

/-- `persistExtras`, lines 304–314: a fixture run takes the usage the
worker reported. -/
def persistUsage (seen : RunRows) (extras : CompleteExtras) (r : RunRows) : RunRows :=
  if seen.isSnapshot then r
  else
    let r := match extras.usedTokens with
      | some used => r.setUsedTokens (max seen.run.usedTokens used)
      | none => r
    r.addSeconds (extras.usedSeconds.getD 0)

/-- `persistExtras`, lines 315–352: the verification results and the
artifacts. -/
def persistReports (ctx : Context) (i : ℕ) (extras : CompleteExtras) (r : RunRows) : RunRows :=
  let id : AttemptId := ⟨ctx.runId, i⟩
  { r with
    verificationResults := r.verificationResults ++ extras.verification.map fun v => {
      attemptId := id, step := v.step, passed := v.passed, failureCode := v.failureCode
      detail := v.detail, durationMs := v.durationMs }
    artifacts := r.artifacts
      ++ extras.patch?.toList.map (fun patch => {
          attemptId := id, kind := .patch, name := "fix.patch", content := patch
          sizeBytes := patch.utf8ByteSize })
      ++ extras.judge.toList.map fun judge => {
          attemptId := id, kind := .judgeReport, name := "judge-report.json", content := judge
          sizeBytes := judge.utf8ByteSize } }

/-- `persistExtras`. -/
def persistExtras (ctx : Context) (seen : RunRows) (i : ℕ) (extras : CompleteExtras)
    (r : RunRows) : RunRows :=
  persistReports ctx i extras (persistUsage seen extras (persistClock ctx seen r))

/-- A lease that has not run out. -/
def Attempt.leaseLive (ctx : Context) (a : Attempt) : Bool :=
  match a.leaseExpiresAt with
  | some expires => ctx.now < expires
  | none => false

/-- The transaction of `completeAttempt` for `SUCCEEDED`. -/
def completeSucceeded (ctx : Context) (seen : RunRows) (i : ℕ) (extras : CompleteExtras)
    (r : RunRows) : Except ServiceError RunRows := do
  let owner ← orThrow r.attempts[i]? ServiceError.recordNotFound
  require (owner.status = .running ∧ owner.leaseLive ctx)
    (ServiceError.conflict "Attempt lease expired")
  require (¬ (seen.isSnapshot ∧ r.unsettled))
    (ServiceError.conflict "Unsettled model usage prevents approval")
  let r := persistExtras ctx seen i extras (r.endAttempt i .succeeded none ctx.now)
  let r ← transitionRun ctx .running .verifying r
  let r ← transitionRun ctx .verifying .succeeded r
  let r ← transitionTask ctx .running .awaitingApproval r
  let r := (r.setPhase "AWAITING_APPROVAL").createApproval (extras.patch?.map ctx.sha256)
  appendSyntheticEvent ctx .approvalEvent (.approvalEvent .pending none none) none r

/-- The transition both failure paths make from the run status they read
before their transaction. -/
def interruptSeen (ctx : Context) (seen : RunRows) (r : RunRows) : Except ServiceError RunRows :=
  if seen.run.status ∈ [.running, .verifying, .dispatched] then
    transitionRun ctx seen.run.status .interrupted r
  else pure r

/-- The transaction of `completeAttempt` for `FAILED`. -/
def completeFailed (ctx : Context) (seen : RunRows) (i attemptNo : ℕ) (code : FailureCode)
    (extras : CompleteExtras) (r : RunRows) : Except ServiceError RunRows := do
  let owner ← orThrow r.attempts[i]? ServiceError.recordNotFound
  require (owner.status = .running) (ServiceError.conflict "Attempt no longer running")
  let r := persistExtras ctx seen i extras (r.endAttempt i .failed (some code) ctx.now)
  let r ← interruptSeen ctx seen r
  applyPolicy ctx i attemptNo code r

/-- The transaction of `completeAttempt`. -/
def completeAttempt (ctx : Context) (seen : RunRows) (i attemptNo : ℕ) (outcome : Outcome)
    (r : RunRows) : Except ServiceError RunRows :=
  match outcome with
  | .succeeded extras => completeSucceeded ctx seen i extras r
  | .failed code extras => completeFailed ctx seen i attemptNo code extras r

/-- The attempts `handleLeaseExpired` marks: still executing, with a lease
that has run out. -/
def leaseLost (ctx : Context) (a : Attempt) : Bool :=
  (a.status = .claimed || a.status = .running) &&
    match a.leaseExpiresAt with
    | some expires => expires ≤ ctx.now
    | none => false

/-- The transaction of `handleLeaseExpired`. An attempt another request
has ended in the meantime is left as it is. -/
def handleLeaseExpired (ctx : Context) (seen : RunRows) (i attemptNo : ℕ) (r : RunRows) :
    Except ServiceError RunRows :=
  match r.attempts[i]? with
  | none => pure r
  | some a =>
    if leaseLost ctx a then do
      let r ← interruptSeen ctx seen (r.endAttempt i .leaseExpired (some .workerLost) ctx.now)
      applyPolicy ctx i attemptNo .workerLost r
    else pure r

/-! ## Checkpoints -/

/-- The transaction of `saveCheckpoint`. -/
def saveCheckpoint (ctx : Context) (input : Checkpoint) (r : RunRows) :
    Except ServiceError RunRows := do
  require (ctx.attemptKnown input.attemptId) ServiceError.recordNotFound
  require (input.attemptId.runId = ctx.runId)
    (ServiceError.conflict "Checkpoint writer no longer owns a running attempt")
  let a ← orThrow r.attempts[input.attemptId.index]? ServiceError.recordNotFound
  require (a.status = .running ∧ a.leaseLive ctx ∧ r.run.status ∈ [.running, .verifying] ∧
      input.baseCommit = r.run.baseCommit)
    (ServiceError.conflict "Checkpoint writer no longer owns a running attempt")
  let r := r.createCheckpoint input
  if r.isSnapshot = false ∧ r.run.usedTokens < input.usedTokens then
    pure (r.setUsedTokens input.usedTokens)
  else pure r

end ControlPlane

end AgentReliability
