import Mathlib.Logic.Basic
/-!
# The enumerations of the control plane

`packages/shared/src/enums.ts` is the single source of the enumerations
every service shares. The names are kept as the strings the rows, the
commands and the trace payloads carry.
-/

namespace AgentReliability

namespace ControlPlane

inductive TaskStatus where
  | created | queued | running | needsAttention | awaitingApproval | approved | prCreated
  | prFailed | resolved | rejected | failed | cancelled
  deriving DecidableEq, Repr

inductive RunStatus where
  | pending | dispatched | running | verifying | interrupted | recovering | succeeded | failed
  | cancelled
  deriving DecidableEq, Repr

inductive AttemptStatus where
  | claimed | running | succeeded | failed | crashed | timedOut | leaseExpired
  deriving DecidableEq, Repr

inductive AgentKind where
  | selfLanggraph | miniSwe
  deriving DecidableEq, Repr

inductive TraceEventType where
  | modelCall | toolCall | fileChange | commandExec | stateTransition | checkpointSaved
  | failureDetected | recoveryAction | verificationResult | approvalEvent | budgetUpdate
  deriving DecidableEq, Repr

inductive FailureCode where
  | modelRateLimit | modelApiError | modelBadOutput | toolExecError | patchApplyFailed
  | sandboxStartFailed | sandboxCrashed | workerLost | budgetTokensExceeded | budgetTimeExceeded
  | budgetTurnsExceeded | agentStuck | verifyPatchMalformed | verifyScopeViolation
  | verifyStaticFailed | verifyTargetTestsFailed | verifyRegressionFailed | verifyTestTampering
  | humanRejected | cancelledByUser
  deriving DecidableEq, Repr

inductive PolicyAction where
  | resume | restartAttempt | escalateHuman | abort
  deriving DecidableEq, Repr

inductive ApprovalStatus where
  | pending | approved | rejected
  deriving DecidableEq, Repr

inductive OutboxStatus where
  | pending | published | failed
  deriving DecidableEq, Repr

inductive ArtifactKind where
  | patch | testReport | log | judgeReport
  deriving DecidableEq, Repr

inductive RunCommandType where
  | startRun | resumeRun | cancelRun
  deriving DecidableEq, Repr

inductive VerifierStep where
  | v1 | v2 | v3 | v4 | v5 | v6
  deriving DecidableEq, Repr

/-- `BudgetCall.status` is a text column; these are the three values the
budget service writes. -/
inductive BudgetCallStatus where
  | reserved | unknown | settled
  deriving DecidableEq, Repr

/-- `TaskSnapshotSchema.delivery.kind`. -/
inductive DeliveryKind where
  | patch | pullRequest
  deriving DecidableEq, Repr

/-- `DeliveryJob.status` is a text column; these are the values the
delivery service writes. -/
inductive JobStatus where
  | queued | running | succeeded | failed | needsAttention
  deriving DecidableEq, Repr

def TaskStatus.name : TaskStatus → String
  | created => "CREATED"
  | queued => "QUEUED"
  | running => "RUNNING"
  | needsAttention => "NEEDS_ATTENTION"
  | awaitingApproval => "AWAITING_APPROVAL"
  | approved => "APPROVED"
  | prCreated => "PR_CREATED"
  | prFailed => "PR_FAILED"
  | resolved => "RESOLVED"
  | rejected => "REJECTED"
  | failed => "FAILED"
  | cancelled => "CANCELLED"

def RunStatus.name : RunStatus → String
  | pending => "PENDING"
  | dispatched => "DISPATCHED"
  | running => "RUNNING"
  | verifying => "VERIFYING"
  | interrupted => "INTERRUPTED"
  | recovering => "RECOVERING"
  | succeeded => "SUCCEEDED"
  | failed => "FAILED"
  | cancelled => "CANCELLED"

def ApprovalStatus.name : ApprovalStatus → String
  | pending => "PENDING"
  | approved => "APPROVED"
  | rejected => "REJECTED"

def FailureCode.name : FailureCode → String
  | modelRateLimit => "MODEL_RATE_LIMIT"
  | modelApiError => "MODEL_API_ERROR"
  | modelBadOutput => "MODEL_BAD_OUTPUT"
  | toolExecError => "TOOL_EXEC_ERROR"
  | patchApplyFailed => "PATCH_APPLY_FAILED"
  | sandboxStartFailed => "SANDBOX_START_FAILED"
  | sandboxCrashed => "SANDBOX_CRASHED"
  | workerLost => "WORKER_LOST"
  | budgetTokensExceeded => "BUDGET_TOKENS_EXCEEDED"
  | budgetTimeExceeded => "BUDGET_TIME_EXCEEDED"
  | budgetTurnsExceeded => "BUDGET_TURNS_EXCEEDED"
  | agentStuck => "AGENT_STUCK"
  | verifyPatchMalformed => "VERIFY_PATCH_MALFORMED"
  | verifyScopeViolation => "VERIFY_SCOPE_VIOLATION"
  | verifyStaticFailed => "VERIFY_STATIC_FAILED"
  | verifyTargetTestsFailed => "VERIFY_TARGET_TESTS_FAILED"
  | verifyRegressionFailed => "VERIFY_REGRESSION_FAILED"
  | verifyTestTampering => "VERIFY_TEST_TAMPERING"
  | humanRejected => "HUMAN_REJECTED"
  | cancelledByUser => "CANCELLED_BY_USER"

def PolicyAction.name : PolicyAction → String
  | resume => "RESUME"
  | restartAttempt => "RESTART_ATTEMPT"
  | escalateHuman => "ESCALATE_HUMAN"
  | abort => "ABORT"

def RunCommandType.name : RunCommandType → String
  | startRun => "START_RUN"
  | resumeRun => "RESUME_RUN"
  | cancelRun => "CANCEL_RUN"

end ControlPlane

end AgentReliability
