import AgentReliability.ControlPlane.Creation
import AgentReliability.ControlPlane.StatusInvariant
/-!
# Every transaction is a step of the abstract run

One lemma for each transaction: the rows it commits abstract to a
`RunCore.Step` of the rows it started from. What a handler read before
its transaction enters through `Captured`, the little that matters of it;
`System` shows that reads of committed states have it, however old.
-/

namespace AgentReliability

namespace ControlPlane

variable {ctx : Context} {r r' seen : RunRows}

/-! ## The abstraction of the row updates -/

namespace RunRows

@[simp] theorem core_createAttempt (a : Attempt) : (r.createAttempt a).core =
    { r.core with attempts := r.core.attempts ++ [a.state] } := by
  simp [core, createAttempt]

@[simp] theorem core_setPhase (phase : String) : (r.setPhase phase).core = r.core := rfl

@[simp] theorem core_setStatus (status : RunStatus) :
    (r.setStatus status).core = { r.core with status } := rfl

@[simp] theorem core_stopClock : r.stopClock.core = r.core := rfl

@[simp] theorem core_addSeconds (seconds : ℤ) : (r.addSeconds seconds).core = r.core := rfl

@[simp] theorem core_setUsedTokens (usedTokens : ℕ) :
    (r.setUsedTokens usedTokens).core = { r.core with usedTokens } := rfl

@[simp] theorem core_setTask (task : TaskStatus) :
    (r.setTask task).core = { r.core with task } := rfl

@[simp] theorem core_setReason (reason : Option String) : (r.setReason reason).core = r.core := rfl

@[simp] theorem core_send (command : RunCommand) (notBefore : Time) :
    (r.send command notBefore).core =
      { r.core with commands := r.core.commands ++ [command] } := by
  simp [core, send]

@[simp] theorem core_recordDecision (d : PolicyDecision) : (r.recordDecision d).core =
    { r.core with decisions := r.core.decisions ++ [(d.attemptId.index, d.action)] } := by
  simp [core, recordDecision]

@[simp] theorem core_createApproval (digest : Option String) :
    (r.createApproval digest).core = { r.core with approvals := r.core.approvals + 1 } := by
  simp [core, createApproval]

@[simp] theorem core_createArtifact (a : Artifact) : (r.createArtifact a).core = r.core := rfl

@[simp] theorem core_createCheckpoint (c : Checkpoint) : (r.createCheckpoint c).core =
    { r.core with checkpoints := r.core.checkpoints ++ [c.attemptId.index] } := by
  simp [core, createCheckpoint]

theorem core_attempts_getElem? (i : ℕ) : r.core.attempts[i]? = r.attempts[i]?.map Attempt.state := by
  simp [core]

/-- An attempt row that executes, seen abstractly. -/
theorem executing_of_running {i : ℕ} {a : Attempt} (ha : r.attempts[i]? = some a)
    (hrun : a.status = .running) : r.core.Executing i a.no := by
  rw [RunCore.Executing, core_attempts_getElem?, ha, Option.map_some, Attempt.state, hrun]

/-- Ending an executing attempt, seen abstractly. -/
theorem core_endAttempt {i no : ℕ} (hi : r.core.Executing i no) (status : AttemptStatus)
    (code : Option FailureCode) (now : Time) :
    (r.endAttempt i status code now).core = r.core.endAttempt i no status := by
  have hlist : (r.endAttempt i status code now).core.attempts =
      (r.core.endAttempt i no status).attempts := by
    refine List.ext_getElem? fun j => ?_
    change ((r.attempts.modify i _).map Attempt.state)[j]? =
      (r.core.attempts.set i ⟨no, status⟩)[j]?
    rw [List.getElem?_map, List.getElem?_modify, List.getElem?_set, core_attempts_getElem?]
    rw [RunCore.Executing, core_attempts_getElem?] at hi
    split
    · rename_i hij
      subst hij
      obtain ⟨a, ha, hstate⟩ := Option.map_eq_some_iff.mp hi
      have hlt : i < r.core.attempts.length := by
        simpa [core] using (List.getElem?_eq_some_iff.mp ha).1
      have hno : a.no = no := congrArg AttemptState.no hstate
      rw [if_pos hlt, ha]
      simp [Attempt.state, hno]
    · simp
  have hsplit : (r.endAttempt i status code now).core =
      { r.core with attempts := (r.endAttempt i status code now).core.attempts } := rfl
  rw [hsplit, hlist]
  rfl

theorem core_latestNo : r.core.latestNo = r.latestNo := by
  simp [RunCore.latestNo, latestNo, core, Attempt.state, Function.comp_def]

theorem core_latestCheckpoint : r.core.latestCheckpoint = r.latestCheckpoint := by
  simp [RunCore.latestCheckpoint, latestCheckpoint, core]

theorem settled_of_unsettled (h : r.unsettled = false) : r.core.Settled := by
  intro call hcall
  have := List.any_eq_false.mp h call hcall
  simpa using this

theorem core_snapshot_isSome : r.core.snapshot.isSome = r.isSnapshot := rfl

end RunRows

/-! ## The shared steps -/

theorem recordEvent_core {attemptId : Option AttemptId} {attemptSequence : ℕ}
    {type : TraceEventType} {payload : TracePayload} {key : ℕ → EventKey} {occurredAt : Time}
    (h : recordEvent ctx r attemptId attemptSequence type payload key occurredAt = .ok r') :
    r'.core = r.core := by
  simp only [recordEvent, bind_eq_ok, require_eq_ok, pure_eq_ok] at h
  obtain ⟨-, -, rfl⟩ := h
  rfl

theorem appendSyntheticEvent_core {type : TraceEventType} {payload : TracePayload}
    {attemptId : Option AttemptId}
    (h : appendSyntheticEvent ctx type payload attemptId r = .ok r') : r'.core = r.core :=
  recordEvent_core h

theorem controlEvent_core {source target : String}
    (h : controlEvent ctx source target r = .ok r') : r'.core = r.core :=
  recordEvent_core h

/-- **A checked run transition moves the status, and nothing else of the
abstract run.** -/
theorem transitionRun_core {source target : RunStatus}
    (h : transitionRun ctx source target r = .ok r') :
    r.core.status = source ∧ r'.core = { r.core with status := target } := by
  simp only [transitionRun, bind_eq_ok, require_eq_ok] at h
  obtain ⟨-, -, -, hstatus, hevent⟩ := h
  exact ⟨hstatus, appendSyntheticEvent_core hevent⟩

theorem transitionTask_core {source target : TaskStatus}
    (h : transitionTask ctx source target r = .ok r') :
    r.core.task = source ∧ r'.core = { r.core with task := target } := by
  simp only [transitionTask, bind_eq_ok, require_eq_ok, pure_eq_ok] at h
  obtain ⟨-, -, -, hstatus, rfl⟩ := h
  exact ⟨hstatus, rfl⟩

/-! ## The recovery policy -/

theorem chargeActive_core (ctx : Context) (r : RunRows) : (chargeActive ctx r).core = r.core := by
  unfold chargeActive
  split <;> simp

theorem chargeActive_isSnapshot (ctx : Context) (r : RunRows) :
    (chargeActive ctx r).isSnapshot = r.isSnapshot := by
  unfold chargeActive
  split <;> rfl

/-- After the charge the clock of a snapshot run is stopped. -/
theorem activeSeconds_chargeActive (ctx : Context) (h : r.isSnapshot = true) :
    activeSeconds ctx (chargeActive ctx r).run = 0 := by
  unfold chargeActive
  split
  · rfl
  · rename_i hne
    have hnone : r.run.activeStartedAt = none := by
      cases hs : r.run.activeStartedAt with
      | none => rfl
      | some t => exact absurd ⟨h, by rw [hs]; rfl⟩ hne
    simp [activeSeconds, hnone]

theorem chargeBackoff_core (backoffMs : ℕ) : (chargeBackoff backoffMs r).core = r.core := by
  unfold chargeBackoff
  split <;> simp

/-- **What the policy does to the run it finds interrupted.** The failed
attempt is at position `i`, under number `no`. -/
inductive PolicyOutcome (i no : ℕ) (c : RunCore) : RunCore → Prop
  | park {decisions : List (ℕ × PolicyAction)}
      (hdecisions : ∀ d ∈ decisions, d.2 ≠ .restartAttempt) :
      PolicyOutcome i no c { c with
        task := .needsAttention, decisions := c.decisions ++ decisions }
  | redispatch {action : PolicyAction} {command : RunCommand} (haction : action.retries)
      (hmax : no < c.maxAttempts) (hsettled : c.snapshot.isSome → c.Settled)
      (hno : command.attemptNo = no + 1)
      (hcheckpoint : command.checkpointId =
        if action = .resume then c.latestCheckpoint else none)
      (hbudget : c.CarriesBudget command) :
      PolicyOutcome i no c { c with
        status := .dispatched
        commands := c.commands ++ [command]
        decisions := c.decisions ++ [(i, action)] }
  | abort : PolicyOutcome i no c { c with
      status := .failed, task := .failed, decisions := c.decisions ++ [(i, .abort)] }

/-- The command a retry sends: the next number, the checkpoint chosen, and
the budget that is left. -/
theorem retryCommand_ok {action : PolicyAction} {attemptNo : ℕ}
    {checkpoint : Option CheckpointId} {command : RunCommand}
    (h : retryCommand ctx r action attemptNo checkpoint = .ok command) :
    command.attemptNo = attemptNo ∧ command.checkpointId = checkpoint ∧
      ∀ snapshot ∈ r.task.snapshot,
        command.budget.remainingTokens = snapshot.budget.tokens - r.run.usedTokens ∧
        command.budget.remainingSeconds =
          ((snapshot.budget.seconds : ℤ) - r.run.usedSeconds).toNat := by
  unfold retryCommand at h
  split at h
  · rename_i snapshot hsnap
    rw [pure_eq_ok] at h
    subst h
    refine ⟨rfl, rfl, fun s hs => ?_⟩
    rw [hsnap, Option.mem_some_iff] at hs
    subst hs
    exact ⟨rfl, rfl⟩
  · rename_i hsnap
    simp only [bind_eq_ok, buildRunCommand, orThrow_eq_ok, pure_eq_ok] at h
    obtain ⟨built, ⟨fixture, -, rfl⟩, h⟩ := h
    have hnone : ∀ s, s ∉ r.task.snapshot := fun s hs => by simp [hsnap] at hs
    split at h
    · rw [pure_eq_ok] at h
      subst h
      exact ⟨rfl, rfl, fun s hs => absurd hs (hnone s)⟩
    · simp only [bind_eq_ok, require_eq_ok, pure_eq_ok] at h
      obtain ⟨-, -, rfl⟩ := h
      exact ⟨rfl, rfl, fun s hs => absurd hs (hnone s)⟩

/-- **A redispatch sends the next command and waits for its claim.** -/
theorem redispatch_core {i no : ℕ} {decision : PolicyDecisionResult}
    (hfrozen : r.core.BudgetFrozen)
    (hleft : r.isSnapshot → r.run.usedTokens < r.run.budgetTokens ∧
      r.run.usedSeconds < r.run.budgetSeconds)
    (h : redispatch ctx i no decision r = .ok r') :
    ∃ command : RunCommand, command.attemptNo = no + 1 ∧
      command.checkpointId =
        (if decision.action = .resume then r.core.latestCheckpoint else none) ∧
      r.core.CarriesBudget command ∧
      r'.core = { r.core with
        status := .dispatched, commands := r.core.commands ++ [command] } := by
  simp only [redispatch, bind_eq_ok] at h
  obtain ⟨r₁, h₁, command, hcommand, r₂, h₂, h₃⟩ := h
  obtain ⟨-, hcore₁⟩ := transitionRun_core h₁
  have hcore₂ := appendSyntheticEvent_core h₂
  obtain ⟨-, hcore₃⟩ := transitionRun_core h₃
  obtain ⟨hno, hcheckpoint, hbudget⟩ := retryCommand_ok hcommand
  -- The transition in between writes the status and an event, and neither is read here.
  have hframe : r₁.task = r.task ∧ r₁.run.usedTokens = r.run.usedTokens ∧
      r₁.run.usedSeconds = r.run.usedSeconds := by
    simp only [transitionRun, appendSyntheticEvent, recordEvent, bind_eq_ok, require_eq_ok,
      pure_eq_ok] at h₁
    obtain ⟨-, -, -, -, -, -, rfl⟩ := h₁
    exact ⟨rfl, rfl, rfl⟩
  refine ⟨command, hno, ?_, fun snapshot hs => ?_, ?_⟩
  · rw [hcheckpoint, RunRows.core_latestCheckpoint]
  · obtain ⟨htokens, hseconds⟩ := hbudget snapshot (hframe.1 ▸ hs)
    have hsec : snapshot.budget.seconds = r.run.budgetSeconds := (hfrozen snapshot hs).2
    obtain ⟨hlt, hslt⟩ := hleft (Option.isSome_iff_exists.mpr ⟨snapshot, hs⟩)
    refine ⟨by rw [htokens, hframe.2.1]; rfl, hlt, ?_⟩
    rw [hseconds, hframe.2.2, hsec]
    omega
  · rw [hcore₃, hcore₂, RunRows.core_send, hcore₁]

/-- What the policy read when it did not stop on the budget. -/
theorem of_not_budgetStops (h : budgetStops ctx r = false) :
    r.unsettled = false ∧ r.run.usedTokens < r.run.budgetTokens ∧
      r.run.usedSeconds + activeSeconds ctx r.run < r.run.budgetSeconds := by
  simp only [budgetStops, Bool.or_eq_false_iff, decide_eq_false_iff_not] at h
  exact ⟨h.1.1.1, by omega, by omega⟩

/-- **A retry sends the next command, or parks a snapshot run whose
backoff its time budget does not allow.** A restart has no backoff, so a
restart that was decided is a restart that is sent. -/
theorem retry_outcome {i no : ℕ} {code : FailureCode} {decision : PolicyDecisionResult}
    {decided : RunRows} (hdecision : decision = policyDecision r no code)
    (hdecided : decided.core = { r.core with
      decisions := r.core.decisions ++ [(i, decision.action)] })
    (hsame : decided.task = r.task ∧ decided.run = r.run) (hretries : decision.action.retries)
    (hfrozen : r.core.BudgetFrozen)
    (hstops : r.isSnapshot → budgetStops ctx r = false ∧ activeSeconds ctx r.run = 0)
    (h : retry ctx i no decision decided = .ok r') : PolicyOutcome i no r.core r'.core := by
  obtain ⟨htask, hrun⟩ := hsame
  have hsnap : decided.isSnapshot = r.isSnapshot := by unfold RunRows.isSnapshot; rw [htask]
  have henabled : r.run.recoveryDisabled = false := by
    cases hd : r.run.recoveryDisabled with
    | false => rfl
    | true =>
      rw [hdecision, policyDecision, if_pos hd] at hretries
      exact absurd hretries (by simp [PolicyAction.retries])
  have htable : decision =
      decidePolicy { failureCode := code, attemptNo := no, maxAttempts := r.run.maxAttempts } := by
    rw [hdecision, policyDecision, henabled]; rfl
  unfold retry at h
  simp only at h
  split at h
  · rename_i hpark
    rw [pure_eq_ok] at h
    subst h
    obtain ⟨hs, hspent⟩ := hpark
    have hsr : r.isSnapshot = true := by
      rw [← hsnap]
      revert hs
      unfold chargeBackoff
      split <;> exact id
    rw [RunRows.core_setReason, RunRows.core_setTask, RunRows.core_setPhase, chargeBackoff_core,
      hdecided]
    refine PolicyOutcome.park fun d hd => ?_
    rw [List.mem_singleton.mp hd]
    intro hrestart
    -- A restart adds no backoff, so the time left before it is left after it.
    have hzero : decision.backoffMs = 0 := by
      rw [htable] at hrestart ⊢
      exact backoffMs_of_restartAttempt hrestart
    obtain ⟨hns, hactive⟩ := hstops hsr
    have hleft := (of_not_budgetStops hns).2.2
    rw [hactive] at hleft
    rw [chargeBackoff, if_pos (hsnap.trans hsr), hzero] at hspent
    have hceil : ceilSeconds ((0 : ℕ) : ℤ) = 0 := rfl
    simp only [RunRows.setPhase, RunRows.addSeconds, hrun, hceil] at hspent
    omega
  · rename_i hgo
    have hcharged : (chargeBackoff decision.backoffMs decided).task = r.task ∧
        (chargeBackoff decision.backoffMs decided).run.usedTokens = r.run.usedTokens ∧
        (chargeBackoff decision.backoffMs decided).run.budgetTokens = r.run.budgetTokens := by
      rw [← htask, ← hrun]
      unfold chargeBackoff
      split <;> exact ⟨rfl, rfl, rfl⟩
    have hsc : (chargeBackoff decision.backoffMs decided).isSnapshot = r.isSnapshot := by
      unfold RunRows.isSnapshot
      rw [hcharged.1]
    obtain ⟨command, hno, hcheckpoint, hbudget, hcore⟩ := redispatch_core
      (r := chargeBackoff decision.backoffMs decided)
      (by rw [chargeBackoff_core, hdecided]; exact hfrozen)
      (fun hs => by
        have htokens := (of_not_budgetStops (hstops (hsc ▸ hs)).1).2.1
        refine ⟨by rw [hcharged.2.1, hcharged.2.2]; exact htokens, ?_⟩
        by_contra hc
        exact hgo ⟨hs, by omega⟩) h
    rw [chargeBackoff_core, hdecided] at hcore hcheckpoint hbudget
    rw [hcore]
    refine PolicyOutcome.redispatch hretries ?_ (fun hs => ?_) hno hcheckpoint hbudget
    · rw [htable] at hretries
      exact attemptNo_lt_of_retries hretries
    · exact RunRows.settled_of_unsettled (of_not_budgetStops (hstops hs).1).1

/-- **The policy, on an interrupted run whose task is still running.** -/
theorem applyPolicy_outcome {i no : ℕ} {code : FailureCode} (hfrozen : r.core.BudgetFrozen)
    (htask : r.task.status = .running) (h : applyPolicy ctx i no code r = .ok r') :
    PolicyOutcome i no r.core r'.core := by
  have htaskCore : r.core.task = .running := htask
  rw [← chargeActive_core ctx r] at hfrozen htaskCore ⊢
  have hactive : (chargeActive ctx r).isSnapshot = true →
      activeSeconds ctx (chargeActive ctx r).run = 0 := fun hs =>
    activeSeconds_chargeActive ctx ((chargeActive_isSnapshot ctx r).symm.trans hs)
  unfold applyPolicy at h
  simp only at h
  generalize chargeActive ctx r = charged at *
  split at h
  · rw [pure_eq_ok] at h
    subst h
    simp only [RunRows.core_setReason, RunRows.core_setTask, RunRows.core_stopClock,
      RunRows.core_addSeconds, RunRows.core_setPhase]
    have hpark : PolicyOutcome i no charged.core { charged.core with
        task := .needsAttention, decisions := charged.core.decisions ++ [] } :=
      PolicyOutcome.park (by simp)
    rw [List.append_nil] at hpark
    exact hpark
  · rename_i hgo
    have hstops : charged.isSnapshot →
        budgetStops ctx charged = false ∧ activeSeconds ctx charged.run = 0 := fun hs => by
      refine ⟨?_, hactive hs⟩
      rw [Bool.eq_false_iff]
      exact fun hb => hgo ⟨hs, hb⟩
    split at h
    · rename_i haction
      refine retry_outcome rfl ?_ ?_ (by rw [haction]; rfl) hfrozen hstops h
      · exact RunRows.core_recordDecision _
      · exact ⟨rfl, rfl⟩
    · rename_i haction
      refine retry_outcome rfl ?_ ?_ (by rw [haction]; rfl) hfrozen hstops h
      · exact RunRows.core_recordDecision _
      · exact ⟨rfl, rfl⟩
    · rename_i haction
      simp only [abortRun, bind_eq_ok] at h
      obtain ⟨failed, hfailed, h⟩ := h
      have hcore := (transitionRun_core hfailed).2
      have hfailedTask : failed.core.task = .running := by
        rw [hcore, RunRows.core_stopClock, RunRows.core_setPhase, RunRows.core_recordDecision]
        exact htaskCore
      have hrunning : failed.task.status = .running := hfailedTask
      rw [if_pos hrunning] at h
      rw [(transitionTask_core h).2, hcore, RunRows.core_stopClock, RunRows.core_setPhase,
        RunRows.core_recordDecision, haction]
      exact PolicyOutcome.abort
    · rename_i haction
      rw [pure_eq_ok] at h
      subst h
      simp only [escalate, RunRows.core_setReason, RunRows.core_setTask, RunRows.core_stopClock,
        RunRows.core_setPhase, RunRows.core_recordDecision, haction]
      exact PolicyOutcome.park (by simp)

/-! ## What was read before a transaction -/

/-- **What a handler that read the attempt at position `i`, and then its
run, knows of the rows its transaction starts from.** The attempt keeps
its number, the snapshot is frozen, and if the attempt still executes then
the run was running when it was read. -/
structure Captured (seen r : RunRows) (i no : ℕ) : Prop where
  snapshot : seen.task.snapshot = r.task.snapshot
  no_eq : ∀ a, r.attempts[i]? = some a → a.no = no
  running : r.core.Executing i no → seen.run.status = .running

/-! ## The end of an attempt -/

/-- Both failure paths: an attempt ends, the run is interrupted, and the
policy decides. -/
theorem step_of_outcome {c d : RunCore} {i no usedTokens : ℕ} {ended : AttemptStatus}
    (hi : c.Executing i no) (hstatus : c.status = .running) (hended : RunCore.FailedAs ended)
    (hused : c.snapshot.isSome → usedTokens = c.usedTokens)
    (h : PolicyOutcome i no { c.endAttempt i no ended with
      status := .interrupted, usedTokens } d) : RunCore.Step c d := by
  cases h with
  | park hdecisions => exact RunCore.Step.park hi hstatus hended hused hdecisions
  | redispatch haction hmax hsettled hno hcheckpoint hbudget =>
    refine RunCore.Step.redispatch hi hstatus hended haction hmax
      (fun hs => ⟨hsettled hs, hused hs⟩) hno hcheckpoint fun s hs => ?_
    have hs' : c.snapshot.isSome := Option.isSome_iff_exists.mpr ⟨s, hs⟩
    obtain ⟨htokens, hlt, hseconds⟩ := hbudget s hs
    exact ⟨htokens.trans (by rw [← hused hs']), (hused hs') ▸ hlt, hseconds⟩
  | abort => exact RunCore.Step.abort hi hstatus hended hused

theorem persistExtras_core (ctx : Context) (seen r : RunRows) (i : ℕ) (extras : CompleteExtras) :
    ∃ usedTokens, (persistExtras ctx seen i extras r).core = { r.core with usedTokens } ∧
      (seen.isSnapshot → usedTokens = r.core.usedTokens) := by
  have hclock : (persistClock ctx seen r).core = r.core := by
    unfold persistClock
    split <;> simp
  unfold persistExtras
  change ∃ usedTokens, (persistUsage seen extras (persistClock ctx seen r)).core = _ ∧ _
  unfold persistUsage
  split
  · exact ⟨r.core.usedTokens, hclock, fun _ => rfl⟩
  · rename_i hs
    rw [RunRows.core_addSeconds]
    split
    · exact ⟨_, by rw [RunRows.core_setUsedTokens, hclock], fun h => absurd h hs⟩
    · exact ⟨r.core.usedTokens, hclock, fun _ => rfl⟩

theorem completeSucceeded_step {i no : ℕ} {extras : CompleteExtras} (hinv : r.core.StatusInv)
    (hcap : Captured seen r i no) (h : completeSucceeded ctx seen i extras r = .ok r') :
    RunCore.Step r.core r'.core := by
  simp only [completeSucceeded, bind_eq_ok, require_eq_ok, orThrow_eq_ok] at h
  obtain ⟨owner, howner, -, ⟨hrun, -⟩, -, hsettled, r₁, h₁, r₂, h₂, r₃, h₃, h₄⟩ := h
  have hi := RunRows.executing_of_running howner hrun
  have hstatus := (hinv.executing hi).2
  obtain ⟨usedTokens, hextras, hused⟩ := persistExtras_core ctx seen
    (r.endAttempt i .succeeded none ctx.now) i extras
  have hend := RunRows.core_endAttempt hi .succeeded none ctx.now
  have hcore₁ := (transitionRun_core h₁).2
  have hcore₂ := (transitionRun_core h₂).2
  obtain ⟨htask, hcore₃⟩ := transitionTask_core h₃
  have hcore₄ := appendSyntheticEvent_core h₄
  have htaskRunning : r.core.task = .running := by
    rw [hcore₂, hcore₁, hextras, hend] at htask
    exact htask
  rw [hcore₄, RunRows.core_createApproval, RunRows.core_setPhase, hcore₃, hcore₂, hcore₁, hextras,
    hend]
  refine RunCore.Step.succeed hi hstatus htaskRunning fun hs => ?_
  have hsnap : seen.isSnapshot = true := by
    unfold RunRows.isSnapshot
    rw [hcap.snapshot]
    exact hs
  refine ⟨RunRows.settled_of_unsettled ?_, ?_⟩
  · rw [Bool.eq_false_iff]
    exact fun hu => hsettled ⟨hsnap, hu⟩
  · rw [hused hsnap, hend]; rfl

/-- The attempts `handleLeaseExpired` marks: none is only claimed. -/
theorem executing_of_leaseLost {i : ℕ} {a : Attempt} (hinv : r.core.StatusInv)
    (ha : r.attempts[i]? = some a) (h : leaseLost ctx a = true) : r.core.Executing i a.no := by
  have hmem : a.state ∈ r.core.attempts := List.mem_map_of_mem (List.mem_of_getElem? ha)
  have hunclaimed : a.status ≠ .claimed := hinv.unclaimed _ hmem
  simp only [leaseLost, Bool.and_eq_true, Bool.or_eq_true, decide_eq_true_eq] at h
  exact RunRows.executing_of_running ha (h.1.resolve_left hunclaimed)

/-- The run the failure paths hand to the policy. -/
theorem interruptSeen_core {i no : ℕ} (hcap : Captured seen r i no) (hi : r.core.Executing i no)
    {ended : RunRows} (h : interruptSeen ctx seen ended = .ok r') :
    r'.core = { ended.core with status := .interrupted } := by
  unfold interruptSeen at h
  rw [hcap.running hi] at h
  exact (transitionRun_core h).2

/-- **Interrupted at the end of an attempt, and handed to the policy.** -/
theorem step_of_applyPolicy {i no usedTokens : ℕ} {code : FailureCode} {status : AttemptStatus}
    {ended interrupted : RunRows} (hinv : r.core.StatusInv) (hfrozen : r.core.BudgetFrozen)
    (hcap : Captured seen r i no) (hi : r.core.Executing i no) (hended : RunCore.FailedAs status)
    (hcore : ended.core = { r.core.endAttempt i no status with usedTokens })
    (hused : r.core.snapshot.isSome → usedTokens = r.core.usedTokens)
    (h₁ : interruptSeen ctx seen ended = .ok interrupted)
    (h₂ : applyPolicy ctx i no code interrupted = .ok r') : RunCore.Step r.core r'.core := by
  have hstatus := (hinv.executing hi).2
  have htask := hinv.task_running hstatus
  have hint := interruptSeen_core hcap hi h₁
  rw [hcore] at hint
  have hinterrupted : interrupted.core.task = .running := by rw [hint]; exact htask
  have hout : PolicyOutcome i no interrupted.core r'.core :=
    applyPolicy_outcome (by rw [hint]; exact hfrozen) hinterrupted h₂
  rw [hint] at hout
  exact step_of_outcome hi hstatus hended hused hout

theorem completeFailed_step {i no : ℕ} {code : FailureCode} {extras : CompleteExtras}
    (hinv : r.core.StatusInv) (hfrozen : r.core.BudgetFrozen) (hcap : Captured seen r i no)
    (h : completeFailed ctx seen i no code extras r = .ok r') : RunCore.Step r.core r'.core := by
  simp only [completeFailed, bind_eq_ok, require_eq_ok, orThrow_eq_ok] at h
  obtain ⟨owner, howner, -, hrun, interrupted, h₁, h₂⟩ := h
  have hno := hcap.no_eq owner howner
  have hi := RunRows.executing_of_running howner hrun
  rw [hno] at hi
  obtain ⟨usedTokens, hextras, hused⟩ := persistExtras_core ctx seen
    (r.endAttempt i .failed (some code) ctx.now) i extras
  rw [RunRows.core_endAttempt hi] at hextras hused
  refine step_of_applyPolicy hinv hfrozen hcap hi (.inl rfl) hextras (fun hs => hused ?_) h₁ h₂
  unfold RunRows.isSnapshot
  rw [hcap.snapshot]
  exact hs

theorem completeAttempt_step {i no : ℕ} {outcome : Outcome} (hinv : r.core.StatusInv)
    (hfrozen : r.core.BudgetFrozen) (hcap : Captured seen r i no)
    (h : completeAttempt ctx seen i no outcome r = .ok r') : RunCore.Step r.core r'.core := by
  cases outcome with
  | succeeded extras => exact completeSucceeded_step hinv hcap h
  | failed code extras => exact completeFailed_step hinv hfrozen hcap h

theorem handleLeaseExpired_step {i no : ℕ} (hinv : r.core.StatusInv) (hfrozen : r.core.BudgetFrozen)
    (hcap : Captured seen r i no) (h : handleLeaseExpired ctx seen i no r = .ok r') :
    RunCore.Step r.core r'.core := by
  unfold handleLeaseExpired at h
  split at h
  · rw [pure_eq_ok] at h
    exact h ▸ RunCore.Step.stay _
  · rename_i a ha
    split at h
    · rename_i hlost
      simp only [bind_eq_ok] at h
      obtain ⟨interrupted, h₁, h₂⟩ := h
      have hi := executing_of_leaseLost hinv ha hlost
      rw [hcap.no_eq a ha] at hi
      exact step_of_applyPolicy hinv hfrozen hcap hi (.inr rfl) (RunRows.core_endAttempt hi _ _ _)
        (fun _ => rfl) h₁ h₂
    · rw [pure_eq_ok] at h
      exact h ▸ RunCore.Step.stay _

/-! ## The other transactions of the lifecycle -/

theorem claimAttempt_step {input : ClaimInput} (h : claimAttempt ctx seen input r = .ok r') :
    RunCore.Step r.core r'.core := by
  simp only [claimAttempt, bind_eq_ok, require_eq_ok] at h
  obtain ⟨-, ⟨hstatus, hno, hmax⟩, r₁, h₁, h₂⟩ := h
  have hcore₁ := (transitionRun_core h₁).2
  rw [RunRows.core_createAttempt] at hcore₁
  have htask : r₁.task.status = r.core.task := by
    have := congrArg RunCore.task hcore₁
    exact this
  have hlatest : input.attemptNo = r.core.latestNo + 1 := by
    rw [RunRows.core_latestNo]; exact hno
  have hstep := RunCore.Step.claim (c := r.core) hstatus hlatest hmax
  split at h₂
  · rename_i hqueued
    have hq : r.core.task = .queued := htask ▸ hqueued
    rw [(transitionTask_core h₂).2]
    change RunCore.Step r.core { r₁.core with task := .running }
    rw [hcore₁]
    rw [if_pos hq] at hstep
    exact hstep
  · rename_i hqueued
    have hq : r.core.task ≠ .queued := htask ▸ hqueued
    rw [pure_eq_ok] at h₂
    subst h₂
    change RunCore.Step r.core r₁.core
    rw [hcore₁]
    rw [if_neg hq] at hstep
    exact hstep

theorem heartbeat_core {i : ℕ} (h : heartbeat ctx i r = .ok r') : r'.core = r.core := by
  simp only [heartbeat, bind_eq_ok, require_eq_ok, orThrow_eq_ok, pure_eq_ok] at h
  obtain ⟨-, -, -, -, rfl⟩ := h
  have hlist : (r.attempts.modify i fun a =>
      { a with leaseExpiresAt := some (ctx.now + ctx.leaseTtlMs) }).map Attempt.state =
      r.attempts.map Attempt.state := by
    refine List.ext_getElem? fun j => ?_
    rw [List.getElem?_map, List.getElem?_map, List.getElem?_modify]
    cases r.attempts[j]? with
    | none => simp
    | some a =>
      simp only [Option.map_some, Option.map_eq_map]
      split <;> rfl
  simp only [RunRows.core, hlist]

theorem saveCheckpoint_step {input : Checkpoint} (h : saveCheckpoint ctx input r = .ok r') :
    RunCore.Step r.core r'.core := by
  simp only [saveCheckpoint, bind_eq_ok, require_eq_ok, orThrow_eq_ok] at h
  obtain ⟨-, -, -, -, a, ha, -, ⟨hrun, -⟩, h⟩ := h
  have hi := RunRows.executing_of_running ha hrun
  split at h
  · rename_i hfixture
    rw [pure_eq_ok] at h
    subst h
    rw [RunRows.core_setUsedTokens, RunRows.core_createCheckpoint]
    refine RunCore.Step.checkpoint hi fun hs => ?_
    have hsnap : r.isSnapshot = true := hs
    exact absurd (hsnap.symm.trans hfixture.1) (by decide)
  · rw [pure_eq_ok] at h
    subst h
    rw [RunRows.core_createCheckpoint]
    exact RunCore.Step.checkpoint hi fun _ => rfl

/-! ## Run control -/

/-- **A fenced operation runs only for the attempt that executes.** -/
theorem withLease_ok {i : ℕ} {token : Option LeaseToken} {checkTime : Bool}
    {operation : RunRows → Except ServiceError RunRows}
    (h : withLease ctx i token checkTime operation r = .ok r') :
    (∃ a, r.attempts[i]? = some a ∧ r.core.Executing i a.no) ∧ operation r = .ok r' := by
  simp only [withLease, lease, bind_eq_ok, require_eq_ok, orThrow_eq_ok] at h
  obtain ⟨a, ha, -, ⟨-, ⟨-, -, hrun, -⟩, -⟩, h⟩ := h
  exact ⟨⟨a, ha, RunRows.executing_of_running ha hrun⟩, h⟩

theorem phase_core {i : ℕ} {token : Option LeaseToken} {p : Phase} {detail : Option String}
    (h : phase ctx i token p detail r = .ok r') : r'.core = r.core := by
  obtain ⟨-, h⟩ := withLease_ok h
  rw [controlEvent_core h]
  split <;> simp

theorem environment_core {i : ℕ} {token : Option LeaseToken} {imageId : String}
    {environmentId : ℕ} {resolved : Option String}
    (h : environment ctx i token imageId environmentId resolved r = .ok r') :
    r'.core = r.core := by
  obtain ⟨-, h⟩ := withLease_ok h
  simp only [bind_eq_ok, require_eq_ok, pure_eq_ok] at h
  obtain ⟨-, -, -, -, rfl⟩ := h
  rfl

theorem pause_step {i : ℕ} {token : Option LeaseToken} {reason : String} {patch : Option String}
    (hinv : r.core.StatusInv) (h : pause ctx i token reason patch r = .ok r') :
    RunCore.Step r.core r'.core := by
  obtain ⟨⟨a, -, hi⟩, h⟩ := withLease_ok h
  have hstatus := (hinv.executing hi).2
  have hcore : r'.core = { r.core.endAttempt i a.no .failed with
      status := .interrupted, task := .needsAttention } := by
    rw [controlEvent_core h]
    -- The executing attempt is the same after the raw updates of the run row.
    have hi' : ((((r.setStatus .interrupted).setPhase "NEEDS_ATTENTION").addSeconds
        (activeSeconds ctx r.run)).stopClock).core.Executing i a.no := hi
    have hend := RunRows.core_endAttempt hi' .failed none ctx.now
    split
    · rw [RunRows.core_createArtifact, RunRows.core_setReason, RunRows.core_setTask, hend]
      rfl
    · rw [RunRows.core_setReason, RunRows.core_setTask, hend]
      rfl
  have hpark : RunCore.Step r.core { r.core.endAttempt i a.no .failed with
      status := .interrupted, task := .needsAttention
      decisions := r.core.decisions ++ [], usedTokens := r.core.usedTokens } :=
    RunCore.Step.park hi hstatus (.inl rfl) (fun _ => rfl) (by simp)
  rw [List.append_nil] at hpark
  rw [hcore]
  exact hpark

theorem stopAttempts_core (ctx : Context) (hinv : r.core.StatusInv) :
    (stopAttempts ctx r).core = r.core.stopAttempts := by
  have hlist : ((stopAttempts ctx r).attempts.map Attempt.state) =
      r.core.stopAttempts.attempts := by
    simp only [stopAttempts, RunCore.stopAttempts, RunRows.core, List.map_map]
    refine List.map_congr_left fun a ha => ?_
    have hunclaimed : a.status ≠ .claimed := hinv.unclaimed a.state (List.mem_map_of_mem ha)
    by_cases hrun : a.status = .running
    · simp [Attempt.state, hrun]
    · simp [Attempt.state, hrun, hunclaimed]
  have hsplit : (stopAttempts ctx r).core =
      { r.core with attempts := (stopAttempts ctx r).attempts.map Attempt.state } := rfl
  rw [hsplit, hlist]
  rfl

theorem cancel_step (hinv : r.core.StatusInv) (h : cancel ctx r = .ok r') :
    RunCore.Step r.core r'.core := by
  unfold cancel at h
  split at h
  · rw [pure_eq_ok] at h
    exact h ▸ RunCore.Step.stay _
  · rename_i hne
    simp only [bind_eq_ok, require_eq_ok] at h
    obtain ⟨-, ⟨hsucceeded, hfailed⟩, h⟩ := h
    have hterminal : ¬ r.core.status.isTerminal := fun ht => by
      rcases RunStatus.isTerminal_iff.mp ht with hs | hs | hs
      · exact hsucceeded hs
      · exact hfailed hs
      · exact hne hs
    have hstop := stopAttempts_core ctx hinv
    have hcore := controlEvent_core h
    have hswap : r'.core = { (stopAttempts ctx r).core with
        status := .cancelled, task := .cancelled } := hcore.trans rfl
    rw [hswap, hstop]
    exact RunCore.Step.cancel hterminal

theorem resume_step (hfrozen : r.core.BudgetFrozen) (h : resume ctx r = .ok r') :
    RunCore.Step r.core r'.core := by
  simp only [resume, bind_eq_ok, require_eq_ok, orThrow_eq_ok] at h
  obtain ⟨-, hstatus, snapshot, hsnap, -, ⟨htokens, hseconds, hmax, hsettled, -⟩, -, -, h⟩ := h
  rw [controlEvent_core h, RunRows.core_send, RunRows.core_setReason, RunRows.core_setTask,
    RunRows.core_setPhase, RunRows.core_setStatus]
  have hisSnapshot : r.core.snapshot.isSome := by
    change r.task.snapshot.isSome
    rw [hsnap]
    rfl
  refine RunCore.Step.resume hstatus hisSnapshot (by simpa [RunRows.core] using hmax)
    (RunRows.settled_of_unsettled hsettled) ?_ ?_ fun s hs => ?_
  · rw [RunRows.core_latestNo]; rfl
  · rw [RunRows.core_latestCheckpoint]; rfl
  · have hse : snapshot = s := by
      change s ∈ r.task.snapshot at hs
      rw [hsnap, Option.mem_some_iff] at hs
      exact hs
    subst hse
    have hsec : snapshot.budget.seconds = r.run.budgetSeconds := (hfrozen snapshot hs).2
    refine ⟨rfl, htokens, ?_⟩
    change 1 ≤ ((snapshot.budget.seconds : ℤ) - r.run.usedSeconds).toNat
    rw [hsec]
    omega

/-! ## The ledger, the events and the outbox -/

theorem reserve_step {attemptId : AttemptId} {token : Option LeaseToken} {id : CallId}
    {reserved : ℕ} (hinv : r.core.StatusInv)
    (htaken : ∀ call ∈ r.budgetCalls, ctx.callTaken call.id = true)
    (h : reserve ctx attemptId token id reserved r = .ok r') : RunCore.Step r.core r'.core := by
  simp only [reserve, bind_eq_ok, require_eq_ok, orThrow_eq_ok, pure_eq_ok] at h
  obtain ⟨-, -, a, ha, -, ⟨-, hrun, -⟩, -, -, -, -, -, hfresh, -, hroom, rfl⟩ := h
  have hi := RunRows.executing_of_running ha hrun
  refine RunCore.Step.reserve (hinv.executing hi).2 (fun call hcall heq => ?_) hroom
  have := htaken call hcall
  rw [heq, hfresh] at this
  exact Bool.false_ne_true this

theorem settle_step {id : CallId} {used : Option ℕ} (h : settle ctx id used r = .ok r') :
    RunCore.Step r.core r'.core := by
  unfold settle at h
  split at h
  · exact absurd h throw_ne_ok
  · rename_i call hfind
    have hmem : call ∈ r.budgetCalls := List.mem_of_find?_eq_some hfind
    have hid : call.id = id := by simpa using List.find?_some hfind
    split at h
    · simp only [bind_eq_ok, require_eq_ok, pure_eq_ok] at h
      obtain ⟨-, -, rfl⟩ := h
      exact RunCore.Step.stay _
    · rename_i hopen
      rw [pure_eq_ok] at h
      subst h
      rw [← hid]
      exact RunCore.Step.settle hmem hopen

theorem ingest_core {event : ReportedEvent} (h : ingest ctx event r = .ok r') :
    r'.core = r.core := by
  simp only [ingest, bind_eq_ok, require_eq_ok, pure_eq_ok] at h
  obtain ⟨r₁, h₁, -, -, rfl⟩ := h
  exact recordEvent_core h₁

/-- An update of a message leaves its command as it is. -/
theorem payloads_modify {f : OutboxMessage → OutboxMessage} (hf : ∀ m, (f m).payload = m.payload)
    (outbox : List OutboxMessage) (j : ℕ) :
    (outbox.modify j f).map (·.payload) = outbox.map (·.payload) := by
  refine List.ext_getElem? fun k => ?_
  rw [List.getElem?_map, List.getElem?_map, List.getElem?_modify]
  cases outbox[k]? with
  | none => simp
  | some m =>
    simp only [Option.map_some, Option.map_eq_map]
    split
    · rw [hf]
    · rfl

theorem updateMessage_core {j : ℕ} {f : OutboxMessage → OutboxMessage}
    (hf : ∀ m, (f m).payload = m.payload) (h : updateMessage j f r = .ok r') :
    r'.core = r.core := by
  simp only [updateMessage, bind_eq_ok, require_eq_ok, pure_eq_ok] at h
  obtain ⟨-, -, rfl⟩ := h
  simp only [RunRows.core, payloads_modify hf]

theorem markPublished_core {j : ℕ} (h : markPublished ctx j r = .ok r') : r'.core = r.core := by
  refine updateMessage_core ?_ h
  exact fun _ => rfl

/-! ## Creation -/

/-- The abstract run right after its creation. -/
structure RunCore.Created (c : RunCore) : Prop where
  status : c.status = .dispatched
  task : c.task = .queued
  attempts : c.attempts = []
  checkpoints : c.checkpoints = []
  decisions : c.decisions = []
  approvals : c.approvals = 0
  calls : c.calls = []
  usedTokens : c.usedTokens = 0
  maxAttempts_pos : 0 < c.maxAttempts
  command : ∃ command : RunCommand, c.commands = [command] ∧ command.attemptNo = 1 ∧
    command.checkpointId = none ∧
    ∀ snapshot ∈ c.snapshot, command.budget.remainingTokens = snapshot.budget.tokens

theorem createTask_created {runs : List RunRows} {input : CreateTaskInput}
    (h : createTask ctx runs input = .ok r) : r.core.Created ∧ r.core.BudgetFrozen := by
  simp only [createTask, bind_eq_ok] at h
  obtain ⟨input', -, fixture, -, baseCommit, -, -, -, queued, hqueued, command, hcommand, hrun⟩ := h
  have hcore₁ := (transitionTask_core hqueued).2
  have hcore₂ := (transitionRun_core hrun).2
  rw [RunRows.core_send, hcore₁] at hcore₂
  simp only [buildRunCommand, bind_eq_ok, orThrow_eq_ok, pure_eq_ok] at hcommand
  obtain ⟨found, -, rfl⟩ := hcommand
  have hsnap : r.core.snapshot = none := congrArg RunCore.snapshot hcore₂
  refine ⟨?_, fun s hs => by rw [hsnap] at hs; exact absurd hs (by simp)⟩
  rw [hcore₂]
  refine ⟨rfl, rfl, rfl, rfl, rfl, rfl, rfl, rfl, Nat.succ_pos 2, _, rfl, rfl, rfl, fun s hs => ?_⟩
  exact absurd hs (by simp [RunRows.core, fixtureRows])

/-- A confirmation that creates a task creates it from its draft. -/
theorem confirm_created {seen runs : List RunRows} {input : ConfirmInput}
    (h : confirm ctx seen runs input = .ok (.created r)) :
    r = snapshotRows ctx input.draft.snapshot input.key := by
  simp only [confirm, bind_eq_ok, require_eq_ok] at h
  obtain ⟨-, -, h⟩ := h
  split at h
  · exact absurd h (by simp [Functor.map, Except.map]; split <;> simp)
  · simp only [bind_eq_ok, require_eq_ok] at h
    obtain ⟨-, -, -, -, -, -, h⟩ := h
    split at h
    · exact absurd h (by simp [Functor.map, Except.map]; split <;> simp)
    · rw [pure_eq_ok] at h
      exact (Confirmed.created.inj h).symm

theorem snapshotRows_created {snapshot : TaskSnapshot} {key : String} :
    (snapshotRows ctx snapshot key).core.Created ∧ (snapshotRows ctx snapshot key).core.BudgetFrozen := by
  refine ⟨⟨rfl, rfl, rfl, rfl, rfl, rfl, rfl, rfl, snapshot.budget.maxAttempts_bounds.1, _, rfl,
    rfl, rfl, fun s hs => ?_⟩, fun s hs => ?_⟩
  · rw [← Option.some.inj hs]; rfl
  · rw [← Option.some.inj hs]; exact ⟨rfl, rfl⟩

end ControlPlane

end AgentReliability
