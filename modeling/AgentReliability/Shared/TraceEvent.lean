import AgentReliability.Runtime.PatchStats
import AgentReliability.Shared.RunCommand
/-!
# The schema of a trace event

`TraceEventSchema` reads the events of all services. What it does not accept
is dropped by the control plane, with no more than a line in the log. The
payload of each type is read back as it is written.
-/

namespace AgentReliability

namespace Shared

open ControlPlane (ApprovalStatus FailureCode PolicyAction TraceEventType VerifierStep)
open JsonSchema
open AgentReliability.Runtime.PatchStats (ChangeType)

/-! ## `trace-event.ts` -/

/-- A dict, as an object. -/
abbrev Dict := List (String × Json)

structure ModelCallPayload where
  model : String
  promptTokens : ℤ
  completionTokens : ℤ
  latencyMs : ℤ
  turn : ℤ

structure ToolCallPayload where
  toolCallId : String
  tool : String
  args : Dict
  resultDigest : String
  durationMs : ℤ
  cached : Bool
  error : Option String := none

structure DiffStat where
  additions : ℤ
  deletions : ℤ

structure FileChangePayload where
  path : String
  changeType : ChangeType
  diffStat : DiffStat

structure CommandExecPayload where
  command : String
  exitCode : ℤ
  stdoutTail : String
  stderrTail : Option String
  durationMs : ℤ

inductive Entity where
  | task | run | attempt
  deriving DecidableEq, Repr

structure StateTransitionPayload where
  entity : Entity
  source : String
  target : String

structure CheckpointSavedPayload where
  checkpointId : String
  usedTokens : ℤ
  usedSeconds : ℤ

structure FailureDetectedPayload where
  failureCode : FailureCode
  message : String

structure RecoveryActionPayload where
  action : PolicyAction
  fromCheckpointId : Option String
  newAttemptNo : ℤ

structure VerificationResultPayload where
  step : VerifierStep
  passed : Bool
  failureCode : Option FailureCode
  detail : Dict

structure ApprovalEventPayload where
  status : ApprovalStatus
  reviewer : Option String
  prUrl : Option String

structure BudgetUpdatePayload where
  usedTokens : ℤ
  usedSeconds : ℤ
  usedTurns : ℤ

/-- The payload of an event, by its type. -/
inductive TracePayload where
  | modelCall (p : ModelCallPayload)
  | toolCall (p : ToolCallPayload)
  | fileChange (p : FileChangePayload)
  | commandExec (p : CommandExecPayload)
  | stateTransition (p : StateTransitionPayload)
  | checkpointSaved (p : CheckpointSavedPayload)
  | failureDetected (p : FailureDetectedPayload)
  | recoveryAction (p : RecoveryActionPayload)
  | verificationResult (p : VerificationResultPayload)
  | approvalEvent (p : ApprovalEventPayload)
  | budgetUpdate (p : BudgetUpdatePayload)

def TracePayload.type : TracePayload → TraceEventType
  | modelCall _ => .modelCall
  | toolCall _ => .toolCall
  | fileChange _ => .fileChange
  | commandExec _ => .commandExec
  | stateTransition _ => .stateTransition
  | checkpointSaved _ => .checkpointSaved
  | failureDetected _ => .failureDetected
  | recoveryAction _ => .recoveryAction
  | verificationResult _ => .verificationResult
  | approvalEvent _ => .approvalEvent
  | budgetUpdate _ => .budgetUpdate

structure TraceEvent where
  runId : String
  attemptId : String
  attemptNo : ℤ
  attemptSequence : ℤ
  occurredAt : String
  idempotencyKey : String
  payload : TracePayload

/-! ### The names of the enumerations -/

def eventTypeName : TraceEventType → String
  | .modelCall => "MODEL_CALL"
  | .toolCall => "TOOL_CALL"
  | .fileChange => "FILE_CHANGE"
  | .commandExec => "COMMAND_EXEC"
  | .stateTransition => "STATE_TRANSITION"
  | .checkpointSaved => "CHECKPOINT_SAVED"
  | .failureDetected => "FAILURE_DETECTED"
  | .recoveryAction => "RECOVERY_ACTION"
  | .verificationResult => "VERIFICATION_RESULT"
  | .approvalEvent => "APPROVAL_EVENT"
  | .budgetUpdate => "BUDGET_UPDATE"

/-- `TRACE_EVENT_TYPES`. -/
def traceEventTypes : List TraceEventType := [
  .modelCall, .toolCall, .fileChange, .commandExec, .stateTransition, .checkpointSaved,
  .failureDetected, .recoveryAction, .verificationResult, .approvalEvent, .budgetUpdate]

def changeTypeName : ChangeType → String
  | .modify => "modify"
  | .create => "create"
  | .delete => "delete"

def changeTypes : List ChangeType := [.modify, .create, .delete]

def Entity.name : Entity → String
  | task => "task"
  | run => "run"
  | attempt => "attempt"

/-- `FAILURE_CODES`. -/
def failureCodes : List FailureCode := [
  .modelRateLimit, .modelApiError, .modelBadOutput, .toolExecError, .patchApplyFailed,
  .sandboxStartFailed, .sandboxCrashed, .workerLost, .budgetTokensExceeded, .budgetTimeExceeded,
  .budgetTurnsExceeded, .agentStuck, .verifyPatchMalformed, .verifyScopeViolation,
  .verifyStaticFailed, .verifyTargetTestsFailed, .verifyRegressionFailed, .verifyTestTampering,
  .humanRejected, .cancelledByUser]

/-- `POLICY_ACTIONS`. -/
def policyActions : List PolicyAction := [.resume, .restartAttempt, .escalateHuman, .abort]

def stepName : VerifierStep → String
  | .v1 => "V1"
  | .v2 => "V2"
  | .v3 => "V3"
  | .v4 => "V4"
  | .v5 => "V5"
  | .v6 => "V6"

/-- `VERIFIER_STEPS`. -/
def verifierSteps : List VerifierStep := [.v1, .v2, .v3, .v4, .v5, .v6]

def approvalStatuses : List ApprovalStatus := [.pending, .approved, .rejected]

/-! ### The schemas -/

def boolean : JsonSchema Bool
  | .bool b => some b
  | _ => none

/-- `z.record(z.string(), z.unknown())`. -/
def record : JsonSchema Dict
  | .obj members => some members
  | _ => none

def modelCallPayload : JsonSchema ModelCallPayload := fun v => do
  v.isObject
  let model ← string (v.get "model")
  let promptTokens ← nonnegativeInt (v.get "promptTokens")
  let completionTokens ← nonnegativeInt (v.get "completionTokens")
  let latencyMs ← nonnegativeInt (v.get "latencyMs")
  let turn ← nonnegativeInt (v.get "turn")
  pure { model, promptTokens, completionTokens, latencyMs, turn }

def toolCallPayload : JsonSchema ToolCallPayload := fun v => do
  v.isObject
  let toolCallId ← string (v.get "toolCallId")
  let tool ← string (v.get "tool")
  let args ← record (v.get "args")
  let resultDigest ← string (v.get "resultDigest")
  let durationMs ← nonnegativeInt (v.get "durationMs")
  let cached ← boolean (v.get "cached")
  let error ← optional string (v.get "error")
  pure { toolCallId, tool, args, resultDigest, durationMs, cached, error }

def diffStat : JsonSchema DiffStat := fun v => do
  v.isObject
  let additions ← nonnegativeInt (v.get "additions")
  let deletions ← nonnegativeInt (v.get "deletions")
  pure { additions, deletions }

def fileChangePayload : JsonSchema FileChangePayload := fun v => do
  v.isObject
  let path ← string (v.get "path")
  let changeType ← oneOf changeTypeName changeTypes (v.get "changeType")
  let diffStat ← diffStat (v.get "diffStat")
  pure { path, changeType, diffStat }

def commandExecPayload : JsonSchema CommandExecPayload := fun v => do
  v.isObject
  let command ← string (v.get "command")
  let exitCode ← safeInt (v.get "exitCode")
  let stdoutTail ← string (v.get "stdoutTail")
  let stderrTail ← optional string (v.get "stderrTail")
  let durationMs ← nonnegativeInt (v.get "durationMs")
  pure { command, exitCode, stdoutTail, stderrTail, durationMs }

def stateTransitionPayload : JsonSchema StateTransitionPayload := fun v => do
  v.isObject
  let entity ← oneOf Entity.name [.task, .run, .attempt] (v.get "entity")
  let source ← string (v.get "from")
  let target ← string (v.get "to")
  pure { entity, source, target }

def checkpointSavedPayload : JsonSchema CheckpointSavedPayload := fun v => do
  v.isObject
  let checkpointId ← string (v.get "checkpointId")
  let usedTokens ← nonnegativeInt (v.get "usedTokens")
  let usedSeconds ← nonnegativeInt (v.get "usedSeconds")
  pure { checkpointId, usedTokens, usedSeconds }

def failureDetectedPayload : JsonSchema FailureDetectedPayload := fun v => do
  v.isObject
  let failureCode ← oneOf FailureCode.name failureCodes (v.get "failureCode")
  let message ← string (v.get "message")
  pure { failureCode, message }

def recoveryActionPayload : JsonSchema RecoveryActionPayload := fun v => do
  v.isObject
  let action ← oneOf PolicyAction.name policyActions (v.get "action")
  let fromCheckpointId ← nullable string (v.get "fromCheckpointId")
  let newAttemptNo ← positiveInt (v.get "newAttemptNo")
  pure { action, fromCheckpointId, newAttemptNo }

def verificationResultPayload : JsonSchema VerificationResultPayload := fun v => do
  v.isObject
  let step ← oneOf stepName verifierSteps (v.get "step")
  let passed ← boolean (v.get "passed")
  let failureCode ← optional (oneOf FailureCode.name failureCodes) (v.get "failureCode")
  let detail ← record (v.get "detail")
  pure { step, passed, failureCode, detail }

def approvalEventPayload : JsonSchema ApprovalEventPayload := fun v => do
  v.isObject
  let status ← oneOf ApprovalStatus.name approvalStatuses (v.get "status")
  let reviewer ← nullable string (v.get "reviewer")
  let prUrl ← nullable string (v.get "prUrl")
  pure { status, reviewer, prUrl }

def budgetUpdatePayload : JsonSchema BudgetUpdatePayload := fun v => do
  v.isObject
  let usedTokens ← nonnegativeInt (v.get "usedTokens")
  let usedSeconds ← nonnegativeInt (v.get "usedSeconds")
  let usedTurns ← nonnegativeInt (v.get "usedTurns")
  pure { usedTokens, usedSeconds, usedTurns }

/-- The union is told apart by the type. -/
def tracePayload : TraceEventType → JsonSchema TracePayload
  | .modelCall => fun v => (modelCallPayload v).map .modelCall
  | .toolCall => fun v => (toolCallPayload v).map .toolCall
  | .fileChange => fun v => (fileChangePayload v).map .fileChange
  | .commandExec => fun v => (commandExecPayload v).map .commandExec
  | .stateTransition => fun v => (stateTransitionPayload v).map .stateTransition
  | .checkpointSaved => fun v => (checkpointSavedPayload v).map .checkpointSaved
  | .failureDetected => fun v => (failureDetectedPayload v).map .failureDetected
  | .recoveryAction => fun v => (recoveryActionPayload v).map .recoveryAction
  | .verificationResult => fun v => (verificationResultPayload v).map .verificationResult
  | .approvalEvent => fun v => (approvalEventPayload v).map .approvalEvent
  | .budgetUpdate => fun v => (budgetUpdatePayload v).map .budgetUpdate

-- `isDatetime` is the check of `z.iso.datetime()`.
def traceEventSchema (isDatetime : String → Bool) : JsonSchema TraceEvent := fun v => do
  v.isObject
  let type ← oneOf eventTypeName traceEventTypes (v.get "type")
  let runId ← nonempty (v.get "runId")
  let attemptId ← nonempty (v.get "attemptId")
  let attemptNo ← positiveInt (v.get "attemptNo")
  let attemptSequence ← positiveInt (v.get "attemptSequence")
  let occurredAt ← check isDatetime string (v.get "occurredAt")
  let idempotencyKey ← nonempty (v.get "idempotencyKey")
  let payload ← tracePayload type (v.get "payload")
  pure { runId, attemptId, attemptNo, attemptSequence, occurredAt, idempotencyKey, payload }

/-! ## The JSON of an event -/

/-- A count that is a safe integer. -/
def Count (n : ℤ) : Prop := 0 ≤ n ∧ n < 2 ^ 53

namespace TracePayload

/-- The dict of a payload. A member without a value is left out. -/
def members : TracePayload → List (String × Option Json)
  | modelCall p => [
    ("model", some (.str p.model)),
    ("promptTokens", some (number p.promptTokens)),
    ("completionTokens", some (number p.completionTokens)),
    ("latencyMs", some (number p.latencyMs)),
    ("turn", some (number p.turn))]
  | toolCall p => [
    ("toolCallId", some (.str p.toolCallId)),
    ("tool", some (.str p.tool)),
    ("args", some (.obj p.args)),
    ("resultDigest", some (.str p.resultDigest)),
    ("durationMs", some (number p.durationMs)),
    ("cached", some (.bool p.cached)),
    ("error", p.error.map .str)]
  | fileChange p => [
    ("path", some (.str p.path)),
    ("changeType", some (.str (changeTypeName p.changeType))),
    ("diffStat", some (.object [
      ("additions", some (number p.diffStat.additions)),
      ("deletions", some (number p.diffStat.deletions))]))]
  | commandExec p => [
    ("command", some (.str p.command)),
    ("exitCode", some (number p.exitCode)),
    ("stdoutTail", some (.str p.stdoutTail)),
    ("stderrTail", p.stderrTail.map .str),
    ("durationMs", some (number p.durationMs))]
  | stateTransition p => [
    ("entity", some (.str p.entity.name)),
    ("from", some (.str p.source)),
    ("to", some (.str p.target))]
  | checkpointSaved p => [
    ("checkpointId", some (.str p.checkpointId)),
    ("usedTokens", some (number p.usedTokens)),
    ("usedSeconds", some (number p.usedSeconds))]
  | failureDetected p => [
    ("failureCode", some (.str p.failureCode.name)),
    ("message", some (.str p.message))]
  | recoveryAction p => [
    ("action", some (.str p.action.name)),
    ("fromCheckpointId", some (stringOrNull p.fromCheckpointId)),
    ("newAttemptNo", some (number p.newAttemptNo))]
  | verificationResult p => [
    ("step", some (.str (stepName p.step))),
    ("passed", some (.bool p.passed)),
    ("detail", some (.obj p.detail)),
    ("failureCode", p.failureCode.map fun code => .str code.name)]
  | approvalEvent p => [
    ("status", some (.str p.status.name)),
    ("reviewer", some (stringOrNull p.reviewer)),
    ("prUrl", some (stringOrNull p.prUrl))]
  | budgetUpdate p => [
    ("usedTokens", some (number p.usedTokens)),
    ("usedSeconds", some (number p.usedSeconds)),
    ("usedTurns", some (number p.usedTurns))]

def toJson (p : TracePayload) : Json := .object p.members

/-- The numbers of a payload are those its schema takes. -/
def InRange : TracePayload → Prop
  | modelCall p => Count p.promptTokens ∧ Count p.completionTokens ∧ Count p.latencyMs ∧ Count p.turn
  | toolCall p => Count p.durationMs
  | fileChange p => Count p.diffStat.additions ∧ Count p.diffStat.deletions
  | commandExec p => -(2 ^ 53) < p.exitCode ∧ p.exitCode < 2 ^ 53 ∧ Count p.durationMs
  | checkpointSaved p => Count p.usedTokens ∧ Count p.usedSeconds
  | recoveryAction p => 0 < p.newAttemptNo ∧ p.newAttemptNo < 2 ^ 53
  | budgetUpdate p => Count p.usedTokens ∧ Count p.usedSeconds ∧ Count p.usedTurns
  | _ => True

end TracePayload

def TraceEvent.members (event : TraceEvent) : List (String × Option Json) := [
  ("runId", some (.str event.runId)),
  ("attemptId", some (.str event.attemptId)),
  ("attemptNo", some (number event.attemptNo)),
  ("attemptSequence", some (number event.attemptSequence)),
  ("occurredAt", some (.str event.occurredAt)),
  ("idempotencyKey", some (.str event.idempotencyKey)),
  ("type", some (.str (eventTypeName event.payload.type))),
  ("payload", some event.payload.toJson)]

/-- What is dumped under `data`. -/
def TraceEvent.toJson (event : TraceEvent) : Json := .object event.members

/-! ## A payload is read as it was written -/

theorem eventType_read (type : TraceEventType) :
    oneOf eventTypeName traceEventTypes (.str (eventTypeName type)) = some type := by
  cases type <;> decide

theorem changeType_read (type : ChangeType) :
    oneOf changeTypeName changeTypes (.str (changeTypeName type)) = some type := by
  cases type <;> decide

theorem entity_read (entity : Entity) :
    oneOf Entity.name [.task, .run, .attempt] (.str entity.name) = some entity := by
  cases entity <;> decide

theorem failureCode_read (code : FailureCode) :
    oneOf FailureCode.name failureCodes (.str code.name) = some code := by
  cases code <;> decide

theorem policyAction_read (action : PolicyAction) :
    oneOf PolicyAction.name policyActions (.str action.name) = some action := by
  cases action <;> decide

theorem step_read (step : VerifierStep) :
    oneOf stepName verifierSteps (.str (stepName step)) = some step := by
  cases step <;> decide

theorem approvalStatus_read (status : ApprovalStatus) :
    oneOf ApprovalStatus.name approvalStatuses (.str status.name) = some status := by
  cases status <;> decide

theorem optional_failureCode (o : Option FailureCode) :
    optional (oneOf FailureCode.name failureCodes)
      ((o.map fun code => Json.str code.name).getD .undefined) = some o := by
  cases o with
  | none => rfl
  | some code => exact congrArg (Option.map some) (failureCode_read code)

theorem nullable_string (o : Option String) : nullable string (stringOrNull o) = some o := by
  cases o <;> rfl

theorem Count.read {n : ℤ} (h : Count n) : nonnegativeInt (number n) = some n :=
  nonnegativeInt_number h.1 h.2

theorem diffStat_read {d : DiffStat} (hadditions : Count d.additions)
    (hdeletions : Count d.deletions) :
    diffStat (.object [("additions", some (number d.additions)),
      ("deletions", some (number d.deletions))]) = some d := by
  have hnodup : ([("additions", some (number d.additions)),
      ("deletions", some (number d.deletions))].map Prod.fst).Nodup := by simp
  refine bind_read (Json.isObject_object _) ?_
  refine bind_read (read_member hnodup rfl hadditions.read) ?_
  refine bind_read (read_member hnodup rfl hdeletions.read) ?_
  rfl

theorem exitCode_read {n : ℤ} (hlo : -(2 ^ 53) < n) (hhi : n < 2 ^ 53) :
    safeInt (number n) = some n := by
  refine check_eq_some.mpr ⟨rfl, ?_⟩
  simp only [Bool.and_eq_true, decide_eq_true_eq]
  omega

theorem TracePayload.nodup (p : TracePayload) : (p.members.map Prod.fst).Nodup := by
  cases p <;> simp [members]

/-- **The schema reads the payload that was written**, of each type. -/
theorem TracePayload.read {p : TracePayload} (h : p.InRange) :
    tracePayload p.type p.toJson = some p := by
  have hnodup := p.nodup
  have hobject := Json.isObject_object p.members
  cases p with
  | modelCall p =>
    obtain ⟨hprompt, hcompletion, hlatency, hturn⟩ := h
    refine Option.map_eq_some_iff.mpr ⟨p, bind_read hobject ?_, rfl⟩
    refine bind_read (read_member hnodup rfl rfl) ?_
    refine bind_read (read_member hnodup rfl hprompt.read) ?_
    refine bind_read (read_member hnodup rfl hcompletion.read) ?_
    refine bind_read (read_member hnodup rfl hlatency.read) ?_
    refine bind_read (read_member hnodup rfl hturn.read) ?_
    rfl
  | toolCall p =>
    refine Option.map_eq_some_iff.mpr ⟨p, bind_read hobject ?_, rfl⟩
    refine bind_read (read_member hnodup rfl rfl) ?_
    refine bind_read (read_member hnodup rfl rfl) ?_
    refine bind_read (read_member hnodup rfl rfl) ?_
    refine bind_read (read_member hnodup rfl rfl) ?_
    refine bind_read (read_member hnodup rfl (Count.read h)) ?_
    refine bind_read (read_member hnodup rfl rfl) ?_
    refine bind_read (read_optional hnodup rfl (optional_string _)) ?_
    rfl
  | fileChange p =>
    refine Option.map_eq_some_iff.mpr ⟨p, bind_read hobject ?_, rfl⟩
    refine bind_read (read_member hnodup rfl rfl) ?_
    refine bind_read (read_member hnodup rfl (changeType_read _)) ?_
    refine bind_read (read_member hnodup rfl (diffStat_read h.1 h.2)) ?_
    rfl
  | commandExec p =>
    obtain ⟨hlo, hhi, hduration⟩ := h
    refine Option.map_eq_some_iff.mpr ⟨p, bind_read hobject ?_, rfl⟩
    refine bind_read (read_member hnodup rfl rfl) ?_
    refine bind_read (read_member hnodup rfl (exitCode_read hlo hhi)) ?_
    refine bind_read (read_member hnodup rfl rfl) ?_
    refine bind_read (read_optional hnodup rfl (optional_string _)) ?_
    refine bind_read (read_member hnodup rfl hduration.read) ?_
    rfl
  | stateTransition p =>
    refine Option.map_eq_some_iff.mpr ⟨p, bind_read hobject ?_, rfl⟩
    refine bind_read (read_member hnodup rfl (entity_read _)) ?_
    refine bind_read (read_member hnodup rfl rfl) ?_
    refine bind_read (read_member hnodup rfl rfl) ?_
    rfl
  | checkpointSaved p =>
    refine Option.map_eq_some_iff.mpr ⟨p, bind_read hobject ?_, rfl⟩
    refine bind_read (read_member hnodup rfl rfl) ?_
    refine bind_read (read_member hnodup rfl (Count.read h.1)) ?_
    refine bind_read (read_member hnodup rfl (Count.read h.2)) ?_
    rfl
  | failureDetected p =>
    refine Option.map_eq_some_iff.mpr ⟨p, bind_read hobject ?_, rfl⟩
    refine bind_read (read_member hnodup rfl (failureCode_read _)) ?_
    refine bind_read (read_member hnodup rfl rfl) ?_
    rfl
  | recoveryAction p =>
    refine Option.map_eq_some_iff.mpr ⟨p, bind_read hobject ?_, rfl⟩
    refine bind_read (read_member hnodup rfl (policyAction_read _)) ?_
    refine bind_read (read_member hnodup rfl (nullable_string _)) ?_
    refine bind_read (read_member hnodup rfl (positiveInt_number h.1 h.2)) ?_
    rfl
  | verificationResult p =>
    refine Option.map_eq_some_iff.mpr ⟨p, bind_read hobject ?_, rfl⟩
    refine bind_read (read_member hnodup rfl (step_read _)) ?_
    refine bind_read (read_member hnodup rfl rfl) ?_
    refine bind_read (read_optional hnodup rfl (optional_failureCode _)) ?_
    refine bind_read (read_member hnodup rfl rfl) ?_
    rfl
  | approvalEvent p =>
    refine Option.map_eq_some_iff.mpr ⟨p, bind_read hobject ?_, rfl⟩
    refine bind_read (read_member hnodup rfl (approvalStatus_read _)) ?_
    refine bind_read (read_member hnodup rfl (nullable_string _)) ?_
    refine bind_read (read_member hnodup rfl (nullable_string _)) ?_
    rfl
  | budgetUpdate p =>
    obtain ⟨htokens, hseconds, hturns⟩ := h
    refine Option.map_eq_some_iff.mpr ⟨p, bind_read hobject ?_, rfl⟩
    refine bind_read (read_member hnodup rfl htokens.read) ?_
    refine bind_read (read_member hnodup rfl hseconds.read) ?_
    refine bind_read (read_member hnodup rfl hturns.read) ?_
    rfl

end Shared

end AgentReliability
