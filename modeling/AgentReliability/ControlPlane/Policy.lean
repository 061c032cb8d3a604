import AgentReliability.ControlPlane.Enums
import Mathlib.Algebra.Ring.Nat
import Mathlib.Tactic.Common
/-!
# The recovery decision table

`modules/policy/policy-engine.ts`. Each failure code has two actions: one
below the attempt limit, one at it. `resume` goes on from the newest
checkpoint, `restartAttempt` throws the progress away and opens a new
attempt from the start.
-/

namespace AgentReliability

namespace ControlPlane

structure PolicyInput where
  failureCode : FailureCode
  attemptNo : ℕ
  maxAttempts : ℕ

structure PolicyDecisionResult where
  action : PolicyAction
  reason : String
  /-- Milliseconds to wait before the command may be published. -/
  backoffMs : ℕ

/-- `TABLE`: the action below the attempt limit and the action at it. -/
def policyTable : FailureCode → PolicyAction × PolicyAction
  | .modelRateLimit => (.resume, .escalateHuman)
  | .modelApiError => (.resume, .escalateHuman)
  | .modelBadOutput => (.resume, .escalateHuman)
  | .toolExecError => (.resume, .escalateHuman)
  | .sandboxCrashed => (.resume, .escalateHuman)
  | .sandboxStartFailed => (.restartAttempt, .escalateHuman)
  | .workerLost => (.resume, .escalateHuman)
  | .patchApplyFailed => (.restartAttempt, .escalateHuman)
  | .agentStuck => (.restartAttempt, .escalateHuman)
  | .budgetTokensExceeded => (.escalateHuman, .escalateHuman)
  | .budgetTimeExceeded => (.escalateHuman, .escalateHuman)
  | .budgetTurnsExceeded => (.escalateHuman, .escalateHuman)
  | .verifyStaticFailed => (.resume, .escalateHuman)
  | .verifyTargetTestsFailed => (.resume, .escalateHuman)
  | .verifyRegressionFailed => (.resume, .escalateHuman)
  | .verifyScopeViolation => (.restartAttempt, .abort)
  | .verifyTestTampering => (.restartAttempt, .abort)
  | .verifyPatchMalformed => (.restartAttempt, .abort)
  | .humanRejected => (.abort, .abort)
  | .cancelledByUser => (.abort, .abort)

/-- `MODEL_FAILURES`: the failures whose retry waits. -/
def modelFailures : List FailureCode := [.modelRateLimit, .modelApiError]

def decidePolicy (input : PolicyInput) : PolicyDecisionResult :=
  let (belowMax, atMax) := policyTable input.failureCode
  let reachedMax := input.maxAttempts ≤ input.attemptNo
  let action := if reachedMax then atMax else belowMax
  { action
    backoffMs :=
      if action = .resume ∧ input.failureCode ∈ modelFailures
      then 30000 * 2 ^ (input.attemptNo - 1) else 0
    reason := s!"{input.failureCode.name} @ attempt {input.attemptNo}/{input.maxAttempts} -> "
      ++ action.name }

/-- The two actions that send a new command. -/
def PolicyAction.retries : PolicyAction → Bool
  | resume => true
  | restartAttempt => true
  | escalateHuman => false
  | abort => false

/-- At the attempt limit no failure is retried. -/
theorem policyTable_snd_not_retries (code : FailureCode) : (policyTable code).2.retries = false := by
  cases code <;> rfl

/-- **A retry leaves room for the attempt it asks for.** -/
theorem attemptNo_lt_of_retries {input : PolicyInput} (h : (decidePolicy input).action.retries) :
    input.attemptNo < input.maxAttempts := by
  by_contra hc
  have hmax : input.maxAttempts ≤ input.attemptNo := Nat.le_of_not_lt hc
  have hact : (decidePolicy input).action = (policyTable input.failureCode).2 := by
    simp [decidePolicy, hmax]
  rw [hact, policyTable_snd_not_retries] at h
  exact Bool.false_ne_true h

/-- A restart does not wait. -/
theorem backoffMs_of_restartAttempt {input : PolicyInput}
    (h : (decidePolicy input).action = .restartAttempt) : (decidePolicy input).backoffMs = 0 := by
  have hne : ¬ ((decidePolicy input).action = .resume ∧ input.failureCode ∈ modelFailures) := by
    rw [h]; simp
  exact if_neg hne

end ControlPlane

end AgentReliability
