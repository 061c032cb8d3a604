import AgentReliability.ControlPlane.Control
/-!
# The run, abstractly

What the lifecycle of a run is about, with the clock, the event log, the
artifacts and the texts left out: the two status columns, the attempts by
number and status, who wrote each checkpoint, the commands sent, the
decisions taken, and the token ledger. `Step` says once what a committed
transaction may do to it; the invariants of the run are read off its
constructors, and `Refinement` shows that every transaction is a step.
-/

namespace AgentReliability

namespace ControlPlane

structure AttemptState where
  no : ℕ
  status : AttemptStatus
  deriving DecidableEq, Repr

structure RunCore where
  snapshot : Option TaskSnapshot
  maxAttempts : ℕ
  budgetTokens : ℕ
  budgetSeconds : ℕ
  status : RunStatus
  task : TaskStatus
  attempts : List AttemptState
  /-- The author of each checkpoint, by its position in `attempts`. -/
  checkpoints : List ℕ
  commands : List RunCommand
  /-- The decisions taken, each with the position of the failed attempt. -/
  decisions : List (ℕ × PolicyAction)
  approvals : ℕ
  calls : List BudgetCall
  usedTokens : ℕ

def Attempt.state (a : Attempt) : AttemptState := ⟨a.no, a.status⟩

/-- **The abstraction of a run's rows.** -/
def RunRows.core (r : RunRows) : RunCore where
  snapshot := r.task.snapshot
  maxAttempts := r.run.maxAttempts
  budgetTokens := r.run.budgetTokens
  budgetSeconds := r.run.budgetSeconds
  status := r.run.status
  task := r.task.status
  attempts := r.attempts.map Attempt.state
  checkpoints := r.checkpoints.map (·.attemptId.index)
  commands := r.outbox.map (·.payload)
  decisions := r.policyDecisions.map fun d => (d.attemptId.index, d.action)
  approvals := r.approvals.length
  calls := r.budgetCalls
  usedTokens := r.run.usedTokens

namespace RunCore

/-- The highest attempt number, 0 before the first attempt. -/
def latestNo (c : RunCore) : ℕ := (c.attempts.map (·.no)).foldr max 0

/-- Every call of the run is settled. -/
def Settled (c : RunCore) : Prop := ∀ call ∈ c.calls, call.status = .settled

/-- The id of the newest checkpoint. -/
def latestCheckpoint (c : RunCore) : Option CheckpointId :=
  if c.checkpoints.isEmpty then none else some (c.checkpoints.length - 1)

/-- The attempt at position `i` is executing, under number `no`. -/
def Executing (c : RunCore) (i no : ℕ) : Prop := c.attempts[i]? = some ⟨no, .running⟩

/-- The attempt at position `i` ends with `status`. -/
def endAttempt (c : RunCore) (i no : ℕ) (status : AttemptStatus) : RunCore :=
  { c with attempts := c.attempts.set i ⟨no, status⟩ }

/-- Every executing attempt is stopped. -/
def stopAttempts (c : RunCore) : RunCore :=
  { c with attempts := c.attempts.map fun a =>
      if a.status = .running then { a with status := .failed } else a }

/-- What a run with a snapshot owes before it may go on to another
attempt or to its approval: the ledger is settled, and its sum is the
column's own, whatever the worker reported. -/
def LedgerKept (c : RunCore) (usedTokens : ℕ) : Prop :=
  c.snapshot.isSome → c.Settled ∧ usedTokens = c.usedTokens

/-- The budget columns of a run are those of its snapshot. -/
def BudgetFrozen (c : RunCore) : Prop :=
  ∀ snapshot ∈ c.snapshot,
    snapshot.budget.tokens = c.budgetTokens ∧ snapshot.budget.seconds = c.budgetSeconds

/-- A command that carries on a snapshot run carries what the ledger and
the clock have left. -/
def CarriesBudget (c : RunCore) (command : RunCommand) : Prop :=
  ∀ snapshot ∈ c.snapshot,
    command.budget.remainingTokens = snapshot.budget.tokens - c.usedTokens ∧
      c.usedTokens < c.budgetTokens ∧ 1 ≤ command.budget.remainingSeconds

/-- The failure at position `i` ends the attempt with a status that is not
an executing one. -/
def FailedAs (status : AttemptStatus) : Prop := status = .failed ∨ status = .leaseExpired

/-- **What a committed transaction may do to a run.** -/
inductive Step : RunCore → RunCore → Prop
  /-- Leaves the run as it is: a heartbeat, a phase, an environment, an
  event, a mark in the outbox, or a request that found nothing to do. -/
  | stay (c : RunCore) : Step c c
  | claim {c : RunCore} {no : ℕ} (hstatus : c.status = .dispatched) (hno : no = c.latestNo + 1)
      (hmax : no ≤ c.maxAttempts) :
      Step c { c with
        status := .running
        task := if c.task = .queued then .running else c.task
        attempts := c.attempts ++ [⟨no, .running⟩] }
  | succeed {c : RunCore} {i no usedTokens : ℕ} (hi : c.Executing i no)
      (hstatus : c.status = .running) (htask : c.task = .running)
      (hledger : c.LedgerKept usedTokens) :
      Step c { c.endAttempt i no .succeeded with
        status := .succeeded
        task := .awaitingApproval
        approvals := c.approvals + 1
        usedTokens }
  /-- An attempt failed, or was paused, and the run waits for a person.
  What was decided, if anything, was not a restart. -/
  | park {c : RunCore} {i no usedTokens : ℕ} {ended : AttemptStatus}
      {decisions : List (ℕ × PolicyAction)} (hi : c.Executing i no)
      (hstatus : c.status = .running) (hended : FailedAs ended)
      (hused : c.snapshot.isSome → usedTokens = c.usedTokens)
      (hdecisions : ∀ d ∈ decisions, d.2 ≠ .restartAttempt) :
      Step c { c.endAttempt i no ended with
        status := .interrupted
        task := .needsAttention
        decisions := c.decisions ++ decisions
        usedTokens }
  /-- An attempt failed and the policy sends the command of the next. -/
  | redispatch {c : RunCore} {i no usedTokens : ℕ} {ended : AttemptStatus} {action : PolicyAction}
      {command : RunCommand} (hi : c.Executing i no) (hstatus : c.status = .running)
      (hended : FailedAs ended) (haction : action.retries) (hmax : no < c.maxAttempts)
      (hledger : c.LedgerKept usedTokens) (hno : command.attemptNo = no + 1)
      (hcheckpoint : command.checkpointId =
        if action = .resume then c.latestCheckpoint else none)
      (hbudget : c.CarriesBudget command) :
      Step c { c.endAttempt i no ended with
        status := .dispatched
        commands := c.commands ++ [command]
        decisions := c.decisions ++ [(i, action)]
        usedTokens }
  | abort {c : RunCore} {i no usedTokens : ℕ} {ended : AttemptStatus} (hi : c.Executing i no)
      (hstatus : c.status = .running) (hended : FailedAs ended)
      (hused : c.snapshot.isSome → usedTokens = c.usedTokens) :
      Step c { c.endAttempt i no ended with
        status := .failed
        task := .failed
        decisions := c.decisions ++ [(i, .abort)]
        usedTokens }
  | cancel {c : RunCore} (hstatus : ¬ c.status.isTerminal) :
      Step c { c.stopAttempts with status := .cancelled, task := .cancelled }
  | resume {c : RunCore} {command : RunCommand} (hstatus : c.status = .interrupted)
      (hsnapshot : c.snapshot.isSome) (hmax : c.attempts.length < c.maxAttempts)
      (hsettled : c.Settled) (hno : command.attemptNo = c.latestNo + 1)
      (hcheckpoint : command.checkpointId = c.latestCheckpoint)
      (hbudget : c.CarriesBudget command) :
      Step c { c with status := .dispatched, task := .queued, commands := c.commands ++ [command] }
  | checkpoint {c : RunCore} {i no usedTokens : ℕ} (hi : c.Executing i no)
      (hused : c.snapshot.isSome → usedTokens = c.usedTokens) :
      Step c { c with checkpoints := c.checkpoints ++ [i], usedTokens }
  | reserve {c : RunCore} {id : CallId} {reserved : ℕ} (hstatus : c.status = .running)
      (hfresh : ∀ call ∈ c.calls, call.id ≠ id)
      (hroom : reserved ≤ availableBudget c.budgetTokens c.calls) :
      Step c { c with calls := c.calls ++ [{ id, reserved }] }
  | settle {c : RunCore} {call : BudgetCall} {used : Option ℕ} (hcall : call ∈ c.calls)
      (hopen : call.status ≠ .settled) :
      Step c { c with
        calls := settleCall call.id used c.calls
        usedTokens := charges (settleCall call.id used c.calls) }

end RunCore

end ControlPlane

end AgentReliability
