import AgentReliability.ControlPlane.Enums
import AgentReliability.Common.Guard
/-!
# The three transition tables

`state-machine/state-machine.ts`: the static transition tables of the
task, the run and the attempt, and the assertion every checked transition
goes through.
-/

namespace AgentReliability

namespace ControlPlane

/-- `TASK_TRANSITIONS`. -/
def TaskStatus.transitions : TaskStatus → List TaskStatus
  | created => [queued, cancelled]
  | queued => [running, cancelled]
  | running => [awaitingApproval, needsAttention, failed, cancelled]
  | needsAttention => [queued, cancelled]
  | awaitingApproval => [approved, rejected, cancelled]
  | approved => [prCreated, prFailed, cancelled]
  | prFailed => [approved, cancelled]
  | prCreated => [resolved]
  | resolved => []
  | rejected => []
  | failed => []
  | cancelled => []

/-- `RUN_TRANSITIONS`. -/
def RunStatus.transitions : RunStatus → List RunStatus
  | pending => [dispatched, cancelled]
  | dispatched => [running, interrupted, cancelled]
  | running => [verifying, interrupted, cancelled]
  | verifying => [succeeded, running, interrupted, cancelled]
  | interrupted => [recovering, failed, cancelled]
  | recovering => [dispatched, failed, cancelled]
  | succeeded => []
  | failed => []
  | cancelled => []

/-- `ATTEMPT_TRANSITIONS`. -/
def AttemptStatus.transitions : AttemptStatus → List AttemptStatus
  | claimed => [running, failed, leaseExpired]
  | running => [succeeded, failed, crashed, timedOut, leaseExpired]
  | succeeded => []
  | failed => []
  | crashed => []
  | timedOut => []
  | leaseExpired => []

/-- A run that no transition leaves. -/
def RunStatus.isTerminal (s : RunStatus) : Bool := s.transitions.isEmpty

theorem RunStatus.isTerminal_iff {s : RunStatus} :
    s.isTerminal ↔ s = .succeeded ∨ s = .failed ∨ s = .cancelled := by
  cases s <;> decide

end ControlPlane

end AgentReliability
