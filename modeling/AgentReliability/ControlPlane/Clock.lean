import AgentReliability.ControlPlane.Reachability
/-!
# The clock of a run

What the time budget of a run is about: the clock that runs while an
attempt executes, the seconds charged so far, the attempts with their ends,
the decisions and the commands. `Step` says once what a committed
transaction may do to it, for a fixture and for a snapshot run.
-/

namespace AgentReliability

namespace ControlPlane

structure AttemptClock where
  no : ℕ
  status : AttemptStatus
  endedAt : Option Time
  deriving DecidableEq, Repr

structure RunClock where
  snapshot : Option TaskSnapshot
  maxAttempts : ℕ
  budgetSeconds : ℕ
  deadlineAt : Option Time
  status : RunStatus
  startedAt : Option Time
  usedSeconds : ℤ
  attempts : List AttemptClock
  decisions : List PolicyDecision
  commands : List RunCommand

def Attempt.clock (a : Attempt) : AttemptClock := ⟨a.no, a.status, a.endedAt⟩

/-- **The clock of a run's rows.** -/
def RunRows.clock (r : RunRows) : RunClock where
  snapshot := r.task.snapshot
  maxAttempts := r.run.maxAttempts
  budgetSeconds := r.run.budgetSeconds
  deadlineAt := r.run.deadlineAt
  status := r.run.status
  startedAt := r.run.activeStartedAt
  usedSeconds := r.run.usedSeconds
  attempts := r.attempts.map Attempt.clock
  decisions := r.policyDecisions
  commands := r.outbox.map (·.payload)

/-- The backoff a decision after the attempt with this number is charged
for. -/
def PolicyDecision.backoff (maxAttempts no : ℕ) (d : PolicyDecision) : ℤ :=
  if d.action.retries then
    ceilSeconds (decidePolicy { failureCode := d.failureCode, attemptNo := no, maxAttempts }).backoffMs
  else 0

/-- What was sent: nothing, or the command of a run that waits, with what
the budget has left. -/
def Sent (budgetSeconds : ℕ) (usedSeconds : ℤ) (status : RunStatus) (commands : List RunCommand) :
    Prop :=
  (commands = [] ∧ status ≠ .dispatched) ∨
    ∃ command, commands = [command] ∧
      command.budget.remainingSeconds = (budgetSeconds - usedSeconds).toNat

namespace RunClock

/-- `activeSeconds`, of the clock. -/
def activeSeconds (c : RunClock) (now : Time) : ℤ :=
  match c.startedAt with
  | some started => ceilSeconds (now - started)
  | none => 0

/-- What a command may spend is what the budget has left. -/
def Carries (c : RunClock) (command : RunCommand) : Prop :=
  command.budget.remainingSeconds = (c.budgetSeconds - c.usedSeconds).toNat

/-- No attempt executes. -/
def Idle (c : RunClock) : Prop := ∀ a ∈ c.attempts, a.status ≠ .running

/-- **What a committed transaction may do to the clock**: one that ends an
attempt at the time `now`, and charges for it up to the time `charged`. -/
inductive Step (now charged : Time) (c : RunClock) : RunClock → Prop
  | stay : Step now charged c c
  | claim {no : ℕ} {started : Time} (hstatus : c.status = .dispatched) (hidle : c.Idle) :
      Step now charged c { c with
        status := .running
        startedAt := some started
        attempts := c.attempts ++ [⟨no, .running, none⟩] }
  /-- The executing attempt, which is the newest, ends. A snapshot run is
  charged for it, and for the backoff of what was decided. -/
  | stop {before : List AttemptClock} {a : AttemptClock} {ended : AttemptStatus}
      {status : RunStatus} {startedAt : Option Time} {usedSeconds : ℤ}
      {decisions : List PolicyDecision} {commands : List RunCommand}
      (hattempts : c.attempts = before ++ [a]) (hrunning : a.status = .running)
      (hbefore : ∀ x ∈ before, x.status ≠ .running) (hended : ended ≠ .running)
      (hstatus : c.status = .running) (hnot : status ≠ .running)
      (hsnapshot : c.snapshot.isSome → startedAt = none ∧ usedSeconds =
        c.usedSeconds + c.activeSeconds charged + (decisions.map (·.backoff c.maxAttempts a.no)).sum)
      (hdecisions : ∀ d ∈ decisions, d.attemptId.index = before.length)
      (hcommands : Sent c.budgetSeconds usedSeconds status commands) :
      Step now charged c { c with
        status, startedAt, usedSeconds
        attempts := before ++ [{ a with status := ended, endedAt := some now }]
        decisions := c.decisions ++ decisions
        commands := c.commands ++ commands }
  /-- A run is cancelled between two attempts. -/
  | cancel (hidle : c.Idle) :
      Step now charged c { c with
        status := .cancelled
        startedAt := none
        usedSeconds := c.usedSeconds + c.activeSeconds charged }
  | resume {command : RunCommand} (hidle : c.Idle) (hstatus : c.status = .interrupted)
      (hcommand : c.Carries command) :
      Step now charged c { c with status := .dispatched, commands := c.commands ++ [command] }

/-- What a run is about, and when it has to end, is never rewritten. -/
theorem Step.frozen {now charged : Time} {c d : RunClock} (h : Step now charged c d) :
    d.snapshot = c.snapshot ∧ d.deadlineAt = c.deadlineAt := by
  cases h <;> exact ⟨rfl, rfl⟩

end RunClock

variable {ctx : Context} {r r' seen : RunRows}

/-! ## The clock of the row updates -/

namespace RunRows

@[simp] theorem clock_createAttempt (a : Attempt) : (r.createAttempt a).clock =
    { r.clock with attempts := r.clock.attempts ++ [a.clock] } := by
  simp [clock, createAttempt]

@[simp] theorem clock_setPhase (phase : String) : (r.setPhase phase).clock = r.clock := rfl

@[simp] theorem clock_setStatus (status : RunStatus) :
    (r.setStatus status).clock = { r.clock with status } := rfl

@[simp] theorem clock_stopClock : r.stopClock.clock = { r.clock with startedAt := none } := rfl

@[simp] theorem clock_addSeconds (seconds : ℤ) : (r.addSeconds seconds).clock =
    { r.clock with usedSeconds := r.clock.usedSeconds + seconds } := rfl

@[simp] theorem clock_setUsedTokens (usedTokens : ℕ) :
    (r.setUsedTokens usedTokens).clock = r.clock := rfl

@[simp] theorem clock_setTask (task : TaskStatus) : (r.setTask task).clock = r.clock := rfl

@[simp] theorem clock_setReason (reason : Option String) :
    (r.setReason reason).clock = r.clock := rfl

@[simp] theorem clock_send (command : RunCommand) (notBefore : Time) :
    (r.send command notBefore).clock =
      { r.clock with commands := r.clock.commands ++ [command] } := by
  simp [clock, send]

@[simp] theorem clock_recordDecision (d : PolicyDecision) : (r.recordDecision d).clock =
    { r.clock with decisions := r.clock.decisions ++ [d] } := rfl

@[simp] theorem clock_createApproval (digest : Option String) :
    (r.createApproval digest).clock = r.clock := rfl

@[simp] theorem clock_createArtifact (a : Artifact) : (r.createArtifact a).clock = r.clock := rfl

@[simp] theorem clock_createCheckpoint (c : Checkpoint) :
    (r.createCheckpoint c).clock = r.clock := rfl

@[simp] theorem clock_activeSeconds (now : Time) :
    r.clock.activeSeconds now = match r.run.activeStartedAt with
      | some started => ceilSeconds (now - started)
      | none => 0 := rfl

/-- Ending the newest attempt, as the clock sees it. -/
theorem clock_endAttempt {before : List Attempt} {a : Attempt} (h : r.attempts = before ++ [a])
    (status : AttemptStatus) (code : Option FailureCode) (now : Time) :
    (r.endAttempt before.length status code now).clock = { r.clock with
      attempts := before.map Attempt.clock ++ [{ a.clock with status, endedAt := some now }] } := by
  have hlist : (r.endAttempt before.length status code now).attempts =
      before ++ [{ a with status, failureCode := code.or a.failureCode, endedAt := some now }] := by
    change r.attempts.modify before.length _ = _
    rw [h, List.modify_eq_take_cons_drop (by simp)]
    simp
  unfold clock
  rw [hlist, List.map_append]
  rfl

end RunRows

theorem activeSeconds_clock (ctx : Context) (r : RunRows) :
    activeSeconds ctx r.run = r.clock.activeSeconds ctx.chargedAt := rfl

/-! ## The shared steps -/

theorem recordEvent_clock {attemptId : Option AttemptId} {attemptSequence : ℕ}
    {type : TraceEventType} {payload : TracePayload} {key : ℕ → EventKey} {occurredAt : Time}
    (h : recordEvent ctx r attemptId attemptSequence type payload key occurredAt = .ok r') :
    r'.clock = r.clock := by
  simp only [recordEvent, bind_eq_ok, require_eq_ok, pure_eq_ok] at h
  obtain ⟨-, -, rfl⟩ := h
  rfl

theorem appendSyntheticEvent_clock {type : TraceEventType} {payload : TracePayload}
    {attemptId : Option AttemptId}
    (h : appendSyntheticEvent ctx type payload attemptId r = .ok r') : r'.clock = r.clock :=
  recordEvent_clock h

theorem controlEvent_clock {source target : String}
    (h : controlEvent ctx source target r = .ok r') : r'.clock = r.clock :=
  recordEvent_clock h

theorem transitionRun_clock {source target : RunStatus}
    (h : transitionRun ctx source target r = .ok r') :
    r'.clock = { r.clock with status := target } := by
  simp only [transitionRun, bind_eq_ok, require_eq_ok] at h
  obtain ⟨-, -, -, -, hevent⟩ := h
  exact appendSyntheticEvent_clock hevent

theorem transitionTask_clock {source target : TaskStatus}
    (h : transitionTask ctx source target r = .ok r') : r'.clock = r.clock := by
  simp only [transitionTask, bind_eq_ok, require_eq_ok, pure_eq_ok] at h
  obtain ⟨-, -, -, -, rfl⟩ := h
  rfl

/-! ## The recovery policy -/

/-- After the charge the clock of a snapshot run is stopped. -/
theorem chargeActive_clock (ctx : Context) (r : RunRows) :
    (chargeActive ctx r).clock = if r.isSnapshot then
      { r.clock with
        startedAt := none, usedSeconds := r.clock.usedSeconds + r.clock.activeSeconds ctx.chargedAt }
    else r.clock := by
  unfold chargeActive
  by_cases hs : r.isSnapshot
  · rw [if_pos hs]
    cases hstarted : r.run.activeStartedAt with
    | none =>
      rw [if_neg (by simp)]
      have hseconds : r.clock.activeSeconds ctx.chargedAt = 0 := by
        rw [RunRows.clock_activeSeconds, hstarted]
      have hstopped : r.clock.startedAt = none := hstarted
      rw [hseconds, Int.add_zero, ← hstopped]
    | some started =>
      rw [if_pos ⟨hs, rfl⟩, RunRows.clock_stopClock, RunRows.clock_addSeconds, activeSeconds_clock]
  · rw [if_neg hs, if_neg fun h => hs h.1]

theorem chargeBackoff_clock (backoffMs : ℕ) (r : RunRows) :
    (chargeBackoff backoffMs r).clock = if r.isSnapshot then
      { r.clock with usedSeconds := r.clock.usedSeconds + ceilSeconds backoffMs } else r.clock := by
  unfold chargeBackoff
  split <;> rfl

/-- A retry carries what the budget has left. -/
theorem retryCommand_carries {action : PolicyAction} {no : ℕ} {checkpoint : Option CheckpointId}
    {command : RunCommand} (hfrozen : r.core.BudgetFrozen)
    (h : retryCommand ctx r action no checkpoint = .ok command) : r.clock.Carries command := by
  unfold retryCommand at h
  split at h
  · rename_i snapshot hsnapshot
    rw [pure_eq_ok] at h
    subst h
    have hbudget : snapshot.budget.seconds = r.run.budgetSeconds :=
      (hfrozen snapshot hsnapshot).2
    change ((snapshot.budget.seconds : ℤ) - r.run.usedSeconds).toNat = _
    rw [hbudget]
    rfl
  · simp only [bind_eq_ok, buildRunCommand, orThrow_eq_ok, pure_eq_ok] at h
    obtain ⟨command', ⟨fixture, -, rfl⟩, h⟩ := h
    split at h
    · obtain rfl := pure_eq_ok.mp h
      rfl
    · simp only [bind_eq_ok, pure_eq_ok] at h
      obtain ⟨-, -, rfl⟩ := h
      rfl

/-- **A redispatch sends one command**, and leaves the clock. -/
theorem redispatch_clock {i no : ℕ} {decision : PolicyDecisionResult}
    (hfrozen : r.core.BudgetFrozen) (h : redispatch ctx i no decision r = .ok r') :
    ∃ command, r.clock.Carries command ∧
      r'.clock = { r.clock with
        status := .dispatched, commands := r.clock.commands ++ [command] } := by
  simp only [redispatch, bind_eq_ok] at h
  obtain ⟨r₁, h₁, command, hcommand, r₂, h₂, h₃⟩ := h
  have hclock₁ := transitionRun_clock h₁
  have hfrozen₁ : r₁.core.BudgetFrozen := by
    rw [(transitionRun_core h₁).2]
    exact hfrozen
  have hcarries := retryCommand_carries hfrozen₁ hcommand
  refine ⟨command, ?_, ?_⟩
  · rw [hclock₁] at hcarries
    exact hcarries
  · rw [transitionRun_clock h₃, appendSyntheticEvent_clock h₂, RunRows.clock_send, hclock₁]

/-- **A retry charges a snapshot run for its backoff**, and sends at most
one command. -/
theorem retry_clock {i no : ℕ} {decision : PolicyDecisionResult} (hfrozen : r.core.BudgetFrozen)
    (hstatus : r.run.status = .interrupted) (h : retry ctx i no decision r = .ok r') :
    ∃ status usedSeconds commands,
      r'.clock = { r.clock with
        status, usedSeconds, commands := r.clock.commands ++ commands } ∧
      status ≠ .running ∧ Sent r.run.budgetSeconds usedSeconds status commands ∧
      (r.isSnapshot → usedSeconds = r.clock.usedSeconds + ceilSeconds decision.backoffMs) := by
  have hcharged := chargeBackoff_clock decision.backoffMs r
  have hused : r.isSnapshot → (chargeBackoff decision.backoffMs r).clock.usedSeconds =
      r.clock.usedSeconds + ceilSeconds decision.backoffMs := by
    intro hs
    rw [hcharged, if_pos hs]
  -- Nothing of the clock but the seconds is charged.
  have hrest : (chargeBackoff decision.backoffMs r).clock = { r.clock with
      usedSeconds := (chargeBackoff decision.backoffMs r).clock.usedSeconds } := by
    rw [hcharged]
    split <;> rfl
  unfold retry at h
  simp only at h
  split at h
  · obtain rfl := pure_eq_ok.mp h
    refine ⟨.interrupted, _, [], ?_, by decide, .inl ⟨rfl, by decide⟩, hused⟩
    rw [RunRows.clock_setReason, RunRows.clock_setTask, RunRows.clock_setPhase, hrest,
      List.append_nil, ← hstatus]
    rfl
  · have hfrozen' : (chargeBackoff decision.backoffMs r).core.BudgetFrozen := by
      rw [chargeBackoff_core]
      exact hfrozen
    obtain ⟨command, hcarries, hclock⟩ := redispatch_clock hfrozen' h
    refine ⟨.dispatched, _, [command], ?_, by decide, .inr ⟨command, rfl, ?_⟩, hused⟩
    · rw [hclock, hrest]
    · unfold RunClock.Carries at hcarries
      rw [hrest] at hcarries
      exact hcarries

/-- **What the policy does to the clock of a run it finds interrupted**,
after the attempt at position `i`, under number `no`. -/
structure PolicyClock (charged : Time) (i no : ℕ) (c d : RunClock) : Prop where
  writes : ∃ status startedAt usedSeconds decisions commands,
    d = { c with
      status, startedAt, usedSeconds
      decisions := c.decisions ++ decisions
      commands := c.commands ++ commands } ∧
    status ≠ .running ∧ Sent c.budgetSeconds usedSeconds status commands ∧
    (∀ x ∈ decisions, x.attemptId.index = i) ∧
    (c.snapshot.isSome → startedAt = none ∧ usedSeconds =
      c.usedSeconds + c.activeSeconds charged + (decisions.map (·.backoff c.maxAttempts no)).sum)

/-- The decision that was recorded is charged for the backoff that was
granted. -/
theorem backoff_of_decision {no : ℕ} {code : FailureCode} {d : PolicyDecision}
    (hcode : d.failureCode = code) (haction : d.action = (policyDecision r no code).action)
    (hretries : (policyDecision r no code).action.retries) :
    d.backoff r.run.maxAttempts no = ceilSeconds (policyDecision r no code).backoffMs := by
  unfold PolicyDecision.backoff
  rw [haction, if_pos hretries, hcode]
  unfold policyDecision at hretries ⊢
  split
  · rename_i hdisabled
    rw [if_pos hdisabled] at hretries
    exact absurd hretries Bool.false_ne_true
  · rfl

/-- A decision that is not to retry is charged for nothing. -/
theorem backoff_of_not_retries {maxAttempts no : ℕ} {d : PolicyDecision}
    (h : d.action.retries = false) : d.backoff maxAttempts no = 0 := by
  unfold PolicyDecision.backoff
  rw [h, if_neg Bool.false_ne_true]

/-- A charged run: the clock of a snapshot run is stopped, and what it
showed is in the seconds. -/
theorem chargeActive_snapshot (ctx : Context) (hs : r.isSnapshot) :
    (chargeActive ctx r).clock.startedAt = none ∧ (chargeActive ctx r).clock.usedSeconds =
      r.clock.usedSeconds + r.clock.activeSeconds ctx.chargedAt := by
  rw [chargeActive_clock, if_pos hs]
  exact ⟨rfl, rfl⟩

theorem chargeActive_rest (ctx : Context) (r : RunRows) : (chargeActive ctx r).clock = { r.clock with
    startedAt := (chargeActive ctx r).clock.startedAt
    usedSeconds := (chargeActive ctx r).clock.usedSeconds } := by
  rw [chargeActive_clock]
  split <;> rfl

theorem applyPolicy_clock {i no : ℕ} {code : FailureCode} (hfrozen : r.core.BudgetFrozen)
    (hstatus : r.run.status = .interrupted) (h : applyPolicy ctx i no code r = .ok r') :
    PolicyClock ctx.chargedAt i no r.clock r'.clock := by
  have hsnap := chargeActive_isSnapshot ctx r
  have hcharged : r.isSnapshot → _ := chargeActive_snapshot ctx
  have hrest := chargeActive_rest ctx r
  have hactive : (chargeActive ctx r).isSnapshot → activeSeconds ctx (chargeActive ctx r).run = 0 :=
    fun hs => activeSeconds_chargeActive ctx (hsnap ▸ hs)
  have hmax : (chargeActive ctx r).run.maxAttempts = r.run.maxAttempts :=
    congrArg RunClock.maxAttempts hrest
  have hstatus' : (chargeActive ctx r).run.status = .interrupted :=
    (congrArg RunClock.status hrest).trans hstatus
  have hfrozen' : (chargeActive ctx r).core.BudgetFrozen := by
    rw [chargeActive_core]
    exact hfrozen
  have hbudget : (chargeActive ctx r).run.budgetSeconds = r.run.budgetSeconds :=
    congrArg RunClock.budgetSeconds hrest
  unfold applyPolicy at h
  simp only at h
  generalize chargeActive ctx r = charged at *
  split at h
  · -- The budget is spent, or usage is unsettled: nothing is decided.
    rename_i hstops
    obtain rfl := pure_eq_ok.mp h
    refine ⟨.interrupted, none, charged.clock.usedSeconds, [], [], ?_, by decide,
      .inl ⟨rfl, by decide⟩, by simp, fun hs => ⟨rfl, ?_⟩⟩
    · rw [RunRows.clock_setReason, RunRows.clock_setTask, RunRows.clock_stopClock,
        RunRows.clock_addSeconds, RunRows.clock_setPhase, hactive hstops.1, Int.add_zero, hrest,
        List.append_nil, List.append_nil]
      unfold RunRows.clock
      rw [hstatus]
    · rw [(hcharged hs).2]
      simp
  · generalize hdecision : policyDecision charged no code = decision at h
    obtain ⟨d, hd, hindex, hcode, haction⟩ : ∃ d : PolicyDecision,
        d = ⟨⟨ctx.runId, i⟩, code, decision.action, decision.reason⟩ ∧ d.attemptId.index = i ∧
          d.failureCode = code ∧ d.action = decision.action := ⟨_, rfl, rfl, rfl, rfl⟩
    rw [← hd] at h
    -- A retry is charged for its backoff, and the other decisions for nothing.
    have hretry : decision.action.retries → retry ctx i no decision (charged.recordDecision d) =
        .ok r' → PolicyClock ctx.chargedAt i no r.clock r'.clock := by
      intro hretries h
      obtain ⟨status, usedSeconds, commands, hclock, hnot, hsent, hused⟩ :=
        retry_clock (r := charged.recordDecision d) hfrozen' hstatus' h
      refine ⟨status, charged.clock.startedAt, usedSeconds, [d], commands, ?_, hnot, ?_, by simp [hindex],
        fun hs => ⟨(hcharged hs).1, ?_⟩⟩
      · rw [hclock, RunRows.clock_recordDecision, hrest]
      · change Sent r.run.budgetSeconds _ _ _
        rw [← hbudget]
        exact hsent
      · have hs : r.isSnapshot := hs
        rw [hused (hsnap.trans hs)]
        rw [← hdecision] at hretries haction ⊢
        have hbackoff := backoff_of_decision hcode haction hretries
        rw [hmax] at hbackoff
        change charged.clock.usedSeconds + _ = _
        simp only [List.map_cons, List.map_nil, List.sum_cons, List.sum_nil, Int.add_zero]
        rw [(hcharged hs).2]
        exact congrArg _ hbackoff.symm
    have hend : ∀ status : RunStatus, decision.action.retries = false → status ≠ .running →
        status ≠ .dispatched → r'.clock = { charged.clock with
          status, startedAt := none, decisions := charged.clock.decisions ++ [d] } →
        PolicyClock ctx.chargedAt i no r.clock r'.clock := by
      intro status hretries hnot hdispatched hclock
      refine ⟨status, none, charged.clock.usedSeconds, [d], [], ?_, hnot, .inl ⟨rfl, hdispatched⟩,
        by simp [hindex], fun hs => ⟨rfl, ?_⟩⟩
      · rw [hclock, hrest, List.append_nil]
      · have hbackoff : d.backoff r.clock.maxAttempts no = 0 :=
          backoff_of_not_retries (by rw [haction]; exact hretries)
        simp only [List.map_cons, List.map_nil, List.sum_cons, List.sum_nil, Int.add_zero]
        rw [(hcharged hs).2, hbackoff, Int.add_zero]
    split at h
    · rename_i hresume
      exact hretry (by rw [hresume]; rfl) h
    · rename_i hrestart
      exact hretry (by rw [hrestart]; rfl) h
    · rename_i habort
      simp only [abortRun, bind_eq_ok] at h
      obtain ⟨r₁, h₁, h₂⟩ := h
      refine hend .failed (by rw [habort]; rfl) (by decide) (by decide) ?_
      have hclock₁ : r₁.clock = { charged.clock with
          status := .failed, startedAt := none
          decisions := charged.clock.decisions ++ [d] } := transitionRun_clock h₁
      split at h₂
      · rw [transitionTask_clock h₂, hclock₁]
      · rw [← pure_eq_ok.mp h₂, hclock₁]
    · rename_i hescalate
      obtain rfl := pure_eq_ok.mp h
      refine hend .interrupted (by rw [hescalate]; rfl) (by decide) (by decide) ?_
      rw [escalate, RunRows.clock_setReason, RunRows.clock_setTask, RunRows.clock_stopClock,
        RunRows.clock_setPhase, RunRows.clock_recordDecision, ← hstatus']
      rfl

/-! ## The end of an attempt -/

/-- An attempt that executes is the newest, and the only one. -/
theorem attempts_of_running (hinv : r.core.StatusInv) {i : ℕ} {a : Attempt}
    (ha : r.attempts[i]? = some a) (hrun : a.status = .running) :
    ∃ before, r.attempts = before ++ [a] ∧ before.length = i ∧
      (∀ x ∈ before.map Attempt.clock, x.status ≠ .running) ∧ r.run.status = .running := by
  obtain ⟨hlast, hstatus⟩ := hinv.executing (RunRows.executing_of_running ha hrun)
  have hlength : i + 1 = r.attempts.length := by simpa [RunRows.core] using hlast
  refine ⟨r.attempts.take i, ?_, by simp; omega, fun x hx hx' => ?_, hstatus⟩
  · obtain ⟨hi, rfl⟩ := List.getElem?_eq_some_iff.mp ha
    rw [List.take_append_getElem hi, List.take_of_length_le (Nat.le_of_eq hlength.symm)]
  · obtain ⟨y, hy, rfl⟩ := List.mem_map.mp hx
    obtain ⟨j, hj⟩ := List.getElem?_of_mem hy
    obtain ⟨hjlt, hj'⟩ := List.getElem?_eq_some_iff.mp hj
    rw [List.length_take] at hjlt
    rw [List.getElem_take] at hj'
    have hjat : r.attempts[j]? = some y := List.getElem?_eq_some_iff.mpr ⟨by omega, hj'⟩
    have hlast' := (hinv.executing (RunRows.executing_of_running hjat hx')).1
    have hlength' : j + 1 = r.attempts.length := by simpa [RunRows.core] using hlast'
    omega

/-- An idle run has no attempt that executes. -/
theorem RunRows.Idle.clock (h : r.Idle) : r.clock.Idle := by
  intro x hx
  obtain ⟨a, ha, rfl⟩ := List.mem_map.mp hx
  exact (h a ha).1

/-- **The end of an attempt of a snapshot run stops the clock**, and what
the worker reports of a fixture's is added. -/
theorem persistExtras_clock (ctx : Context) (i : ℕ) (extras : CompleteExtras)
    (hseen : seen.isSnapshot = r.isSnapshot) :
    ∃ startedAt usedSeconds, (persistExtras ctx seen i extras r).clock =
        { r.clock with startedAt, usedSeconds } ∧
      (r.isSnapshot → startedAt = none ∧
        usedSeconds = r.clock.usedSeconds + r.clock.activeSeconds ctx.chargedAt) := by
  unfold persistExtras
  change ∃ startedAt usedSeconds, (persistUsage seen extras (persistClock ctx seen r)).clock = _ ∧ _
  unfold persistUsage persistClock
  by_cases hs : r.isSnapshot
  · have hs' : seen.isSnapshot = true := hseen.trans hs
    rw [if_pos hs', if_pos hs']
    exact ⟨none, _, rfl, fun _ => ⟨rfl, rfl⟩⟩
  · have hs' : ¬ seen.isSnapshot = true := by rw [hseen]; exact hs
    rw [if_neg hs', if_neg hs']
    cases extras.usedTokens with
    | none => exact ⟨r.clock.startedAt, _, rfl, fun h => absurd h hs⟩
    | some used => exact ⟨r.clock.startedAt, _, rfl, fun h => absurd h hs⟩

/-- **Ended, interrupted, and handed to the policy.** What the clock showed
is charged once, by the end of the attempt or by the policy. -/
theorem step_of_policy {before : List Attempt} {a : Attempt} {ended : AttemptStatus}
    {interrupted : RunRows} {startedAt : Option Time} {usedSeconds : ℤ}
    (hattempts : r.attempts = before ++ [a]) (hrun : a.status = .running)
    (hbefore : ∀ x ∈ before.map Attempt.clock, x.status ≠ .running) (hended : ended ≠ .running)
    (hstatus : r.run.status = .running)
    (hclock : interrupted.clock = { r.clock with
      status := .interrupted, startedAt, usedSeconds
      attempts := before.map Attempt.clock ++
        [{ a.clock with status := ended, endedAt := some ctx.now }] })
    (hcharge : r.isSnapshot → interrupted.clock.usedSeconds +
      interrupted.clock.activeSeconds ctx.chargedAt =
        r.clock.usedSeconds + r.clock.activeSeconds ctx.chargedAt)
    (hpolicy : PolicyClock ctx.chargedAt before.length a.no interrupted.clock r'.clock) :
    RunClock.Step ctx.now ctx.chargedAt r.clock r'.clock := by
  obtain ⟨status, startedAt', usedSeconds', decisions, commands, hwrites, hnot, hsent, hindex,
    hsnapshot⟩ := hpolicy
  rw [hwrites]
  have hsame : interrupted.clock.snapshot = r.clock.snapshot ∧
      interrupted.clock.maxAttempts = r.clock.maxAttempts ∧
      interrupted.clock.budgetSeconds = r.clock.budgetSeconds := by
    rw [hclock]
    exact ⟨rfl, rfl, rfl⟩
  have hcharged : r.clock.snapshot.isSome → startedAt' = none ∧ usedSeconds' =
      r.clock.usedSeconds + r.clock.activeSeconds ctx.chargedAt +
        (decisions.map (·.backoff r.clock.maxAttempts a.clock.no)).sum := by
    intro hs
    obtain ⟨hstopped, hused⟩ := hsnapshot (by rw [hsame.1]; exact hs)
    refine ⟨hstopped, ?_⟩
    rw [hused, hcharge hs, hsame.2.1]
    rfl
  rw [hclock]
  exact .stop (by simp [RunRows.clock, hattempts]) hrun hbefore hended hstatus hnot hcharged
    (by simpa using hindex) (hsame.2.2 ▸ hsent)

theorem interruptSeen_clock {i no : ℕ} (hcap : Captured seen r i no) (hi : r.core.Executing i no)
    {ended : RunRows} (h : interruptSeen ctx seen ended = .ok r') :
    r'.clock = { ended.clock with status := .interrupted } := by
  unfold interruptSeen at h
  rw [hcap.running hi] at h
  exact transitionRun_clock h

theorem completeSucceeded_clock {i no : ℕ} {extras : CompleteExtras} (hinv : r.core.StatusInv)
    (hcap : Captured seen r i no) (h : completeSucceeded ctx seen i extras r = .ok r') :
    RunClock.Step ctx.now ctx.chargedAt r.clock r'.clock := by
  simp only [completeSucceeded, bind_eq_ok, require_eq_ok, orThrow_eq_ok] at h
  obtain ⟨owner, howner, -, ⟨hrun, -⟩, -, -, r₁, h₁, r₂, h₂, r₃, h₃, h₄⟩ := h
  obtain ⟨before, hattempts, rfl, hbefore, hstatus⟩ := attempts_of_running hinv howner hrun
  have hseen : seen.isSnapshot = r.isSnapshot := by
    unfold RunRows.isSnapshot
    rw [hcap.snapshot]
  obtain ⟨startedAt, usedSeconds, hextras, hcharge⟩ := persistExtras_clock ctx before.length extras
    (r := r.endAttempt before.length .succeeded none ctx.now) hseen
  have hclock : r'.clock = { r.clock with
      status := .succeeded, startedAt, usedSeconds
      attempts := before.map Attempt.clock ++
        [{ owner.clock with status := .succeeded, endedAt := some ctx.now }]
      decisions := r.clock.decisions ++ []
      commands := r.clock.commands ++ [] } := by
    rw [appendSyntheticEvent_clock h₄, RunRows.clock_createApproval, RunRows.clock_setPhase,
      transitionTask_clock h₃, transitionRun_clock h₂, transitionRun_clock h₁, hextras,
      RunRows.clock_endAttempt hattempts, List.append_nil, List.append_nil]
  rw [hclock]
  refine .stop (by simp [RunRows.clock, hattempts]) hrun hbefore (by decide) hstatus (by decide)
    (fun hs => ?_) (by simp) (.inl ⟨rfl, by decide⟩)
  obtain ⟨hstopped, hused⟩ := hcharge hs
  refine ⟨hstopped, ?_⟩
  rw [hused]
  simp only [List.map_nil, List.sum_nil, Int.add_zero]
  rfl

theorem completeFailed_clock {i no : ℕ} {code : FailureCode} {extras : CompleteExtras}
    (hinv : r.core.StatusInv) (hfrozen : r.core.BudgetFrozen) (hcap : Captured seen r i no)
    (h : completeFailed ctx seen i no code extras r = .ok r') :
    RunClock.Step ctx.now ctx.chargedAt r.clock r'.clock := by
  simp only [completeFailed, bind_eq_ok, require_eq_ok, orThrow_eq_ok] at h
  obtain ⟨owner, howner, -, hrun, interrupted, h₁, h₂⟩ := h
  obtain rfl := hcap.no_eq owner howner
  have hi := RunRows.executing_of_running howner hrun
  obtain ⟨before, hattempts, rfl, hbefore, hstatus⟩ := attempts_of_running hinv howner hrun
  have hseen : seen.isSnapshot = r.isSnapshot := by
    unfold RunRows.isSnapshot
    rw [hcap.snapshot]
  obtain ⟨startedAt, usedSeconds, hextras, hcharge⟩ := persistExtras_clock ctx before.length extras
    (r := r.endAttempt before.length .failed (some code) ctx.now) hseen
  have hclock := interruptSeen_clock hcap hi h₁
  rw [hextras, RunRows.clock_endAttempt hattempts] at hclock
  have hfrozen' : interrupted.core.BudgetFrozen := by
    obtain ⟨usedTokens, hcore, -⟩ := persistExtras_core ctx seen
      (r.endAttempt before.length .failed (some code) ctx.now) before.length extras
    rw [interruptSeen_core hcap hi h₁, hcore, RunRows.core_endAttempt hi]
    exact hfrozen
  have hinterrupted : interrupted.run.status = .interrupted := congrArg RunClock.status hclock
  refine step_of_policy hattempts hrun hbefore (by decide) hstatus hclock (fun hs => ?_)
    (applyPolicy_clock hfrozen' hinterrupted h₂)
  obtain ⟨hstopped, hused⟩ := hcharge hs
  rw [hclock]
  unfold RunClock.activeSeconds
  simp only [hstopped, hused, Int.add_zero]
  rfl

theorem handleLeaseExpired_clock {i no : ℕ} (hinv : r.core.StatusInv)
    (hfrozen : r.core.BudgetFrozen) (hcap : Captured seen r i no)
    (h : handleLeaseExpired ctx seen i no r = .ok r') :
    RunClock.Step ctx.now ctx.chargedAt r.clock r'.clock := by
  unfold handleLeaseExpired at h
  split at h
  · obtain rfl := pure_eq_ok.mp h
    exact .stay
  · rename_i a ha
    split at h
    · rename_i hlost
      simp only [bind_eq_ok] at h
      obtain ⟨interrupted, h₁, h₂⟩ := h
      have hrun : a.status = .running := by
        have hunclaimed : a.status ≠ .claimed :=
          hinv.unclaimed a.state (List.mem_map_of_mem (List.mem_of_getElem? ha))
        simp only [leaseLost, Bool.and_eq_true, Bool.or_eq_true, decide_eq_true_eq] at hlost
        exact hlost.1.resolve_left hunclaimed
      obtain rfl := hcap.no_eq a ha
      have hi := RunRows.executing_of_running ha hrun
      obtain ⟨before, hattempts, rfl, hbefore, hstatus⟩ := attempts_of_running hinv ha hrun
      have hclock := interruptSeen_clock hcap hi h₁
      rw [RunRows.clock_endAttempt hattempts] at hclock
      have hfrozen' : interrupted.core.BudgetFrozen := by
        rw [interruptSeen_core hcap hi h₁, RunRows.core_endAttempt hi]
        exact hfrozen
      have hinterrupted : interrupted.run.status = .interrupted := congrArg RunClock.status hclock
      refine step_of_policy hattempts hrun hbefore (by decide) hstatus hclock (fun _ => ?_)
        (applyPolicy_clock hfrozen' hinterrupted h₂)
      rw [hclock]
      rfl
    · obtain rfl := pure_eq_ok.mp h
      exact .stay

/-! ## The other transactions -/

theorem claimAttempt_clock {input : ClaimInput} (hinv : r.core.StatusInv)
    (h : claimAttempt ctx seen input r = .ok r') :
    r.run.status = .dispatched ∧ r.clock.Idle ∧ r'.clock = { r.clock with
      status := .running
      startedAt := some (seen.run.activeStartedAt.getD ctx.now)
      attempts := r.clock.attempts ++ [⟨input.attemptNo, .running, none⟩] } := by
  simp only [claimAttempt, bind_eq_ok, require_eq_ok] at h
  obtain ⟨-, ⟨hstatus, -, -⟩, r₁, h₁, h₂⟩ := h
  refine ⟨hstatus, (hinv.idle (by rw [hstatus]; decide)).clock, ?_⟩
  have hclock₁ := transitionRun_clock h₁
  rw [RunRows.clock_createAttempt] at hclock₁
  have hclock : ({ r₁ with run := { r₁.run with
      activeStartedAt := some (seen.run.activeStartedAt.getD ctx.now) } } : RunRows).clock =
      { r₁.clock with startedAt := some (seen.run.activeStartedAt.getD ctx.now) } := rfl
  split at h₂
  · rw [transitionTask_clock h₂, hclock, hclock₁]
    rfl
  · rw [← pure_eq_ok.mp h₂, hclock, hclock₁]
    rfl

theorem heartbeat_clock {i : ℕ} (h : heartbeat ctx i r = .ok r') : r'.clock = r.clock := by
  simp only [heartbeat, bind_eq_ok, require_eq_ok, orThrow_eq_ok, pure_eq_ok] at h
  obtain ⟨-, -, -, -, rfl⟩ := h
  have hlist : (r.attempts.modify i fun a =>
      { a with leaseExpiresAt := some (ctx.now + ctx.leaseTtlMs) }).map Attempt.clock =
      r.attempts.map Attempt.clock := by
    refine List.ext_getElem? fun j => ?_
    rw [List.getElem?_map, List.getElem?_map, List.getElem?_modify]
    cases r.attempts[j]? with
    | none => simp
    | some a =>
      simp only [Option.map_some, Option.map_eq_map]
      split <;> rfl
  unfold RunRows.clock
  rw [hlist]

theorem saveCheckpoint_clock {input : Checkpoint} (h : saveCheckpoint ctx input r = .ok r') :
    r'.clock = r.clock := by
  simp only [saveCheckpoint, bind_eq_ok, require_eq_ok, orThrow_eq_ok] at h
  obtain ⟨-, -, -, -, a, -, -, -, h⟩ := h
  split at h <;> rw [← pure_eq_ok.mp h] <;> rfl

theorem phase_clock {i : ℕ} {token : Option LeaseToken} {p : Phase} {detail : Option String}
    (h : phase ctx i token p detail r = .ok r') : r'.clock = r.clock := by
  obtain ⟨-, h⟩ := withLease_ok h
  rw [controlEvent_clock h]
  split <;> rfl

theorem environment_clock {i : ℕ} {token : Option LeaseToken} {imageId : String}
    {environmentId : ℕ} {resolved : Option String}
    (h : environment ctx i token imageId environmentId resolved r = .ok r') :
    r'.clock = r.clock := by
  obtain ⟨-, h⟩ := withLease_ok h
  simp only [bind_eq_ok, require_eq_ok, pure_eq_ok] at h
  obtain ⟨-, -, -, -, rfl⟩ := h
  rfl

theorem pause_clock {i : ℕ} {token : Option LeaseToken} {reason : String} {patch : Option String}
    (hinv : r.core.StatusInv) (h : pause ctx i token reason patch r = .ok r') :
    RunClock.Step ctx.now ctx.chargedAt r.clock r'.clock := by
  simp only [pause, withLease, lease, bind_eq_ok, require_eq_ok, orThrow_eq_ok] at h
  obtain ⟨a, ha, -, ⟨-, ⟨-, -, hrun, -⟩, -⟩, h⟩ := h
  obtain ⟨before, hattempts, rfl, hbefore, hstatus⟩ := attempts_of_running hinv ha hrun
  have hclock : r'.clock = { r.clock with
      status := .interrupted
      startedAt := none
      usedSeconds := r.clock.usedSeconds + r.clock.activeSeconds ctx.chargedAt
      attempts := before.map Attempt.clock ++
        [{ a.clock with status := .failed, endedAt := some ctx.now }]
      decisions := r.clock.decisions ++ []
      commands := r.clock.commands ++ [] } := by
    have hpaused := RunRows.clock_endAttempt
      (r := (((r.setStatus .interrupted).setPhase "NEEDS_ATTENTION").addSeconds
        (activeSeconds ctx r.run)).stopClock) hattempts .failed none ctx.now
    rw [controlEvent_clock h, List.append_nil, List.append_nil]
    split
    · rw [RunRows.clock_createArtifact, RunRows.clock_setReason, RunRows.clock_setTask, hpaused]
      rfl
    · rw [RunRows.clock_setReason, RunRows.clock_setTask, hpaused]
      rfl
  rw [hclock]
  exact .stop (by simp [RunRows.clock, hattempts]) hrun hbefore (by decide) hstatus (by decide)
    (fun _ => ⟨rfl, by simp⟩) (by simp) (.inl ⟨rfl, by decide⟩)

/-- Stopping the attempts that execute: the newest, or none. -/
theorem stopAttempts_clock (ctx : Context) (hinv : r.core.StatusInv) :
    (r.clock.Idle ∧ (stopAttempts ctx r).clock = r.clock) ∨
      ∃ before a, r.attempts = before ++ [a] ∧ a.status = .running ∧
        (∀ x ∈ before.map Attempt.clock, x.status ≠ .running) ∧ r.run.status = .running ∧
        (stopAttempts ctx r).clock = { r.clock with
          attempts := before.map Attempt.clock ++
            [{ a.clock with status := .failed, endedAt := some ctx.now }] } := by
  have hunclaimed : ∀ a ∈ r.attempts, a.status ≠ .claimed := fun a ha =>
    hinv.unclaimed a.state (List.mem_map_of_mem ha)
  have hstopped : (stopAttempts ctx r).clock = { r.clock with
      attempts := r.clock.attempts.map fun x =>
        if x.status = .running then { x with status := .failed, endedAt := some ctx.now } else x } := by
    have hlist : (stopAttempts ctx r).attempts.map Attempt.clock = r.clock.attempts.map fun x =>
        if x.status = .running then { x with status := .failed, endedAt := some ctx.now } else x := by
      unfold stopAttempts RunRows.clock
      rw [List.map_map, List.map_map]
      refine List.map_congr_left fun a ha => ?_
      have hne := hunclaimed a ha
      by_cases hrun : a.status = .running <;> simp [Attempt.clock, hrun, hne]
    unfold stopAttempts at hlist ⊢
    unfold RunRows.clock at hlist ⊢
    rw [hlist]
  -- An attempt that does not execute is left as it is.
  have hkept : ∀ l : List AttemptClock, (∀ x ∈ l, x.status ≠ .running) →
      (l.map fun x => if x.status = .running then
        { x with status := .failed, endedAt := some ctx.now } else x) = l := by
    intro l hidle
    refine (List.map_congr_left fun x hx => ?_).trans (List.map_id l)
    exact if_neg (hidle x hx)
  by_cases hrun : r.run.status = .running
  · obtain ⟨i, no, hi⟩ := hinv.running hrun
    rw [RunCore.Executing, RunRows.core_attempts_getElem?] at hi
    obtain ⟨a, ha, hstate⟩ := Option.map_eq_some_iff.mp hi
    have harun : a.status = .running := congrArg AttemptState.status hstate
    obtain ⟨before, hattempts, -, hbefore, -⟩ := attempts_of_running hinv ha harun
    refine .inr ⟨before, a, hattempts, harun, hbefore, hrun, ?_⟩
    have hclocks : r.clock.attempts = before.map Attempt.clock ++ [a.clock] := by
      simp [RunRows.clock, hattempts]
    rw [hstopped, hclocks, List.map_append, hkept _ hbefore, List.map_singleton,
      if_pos (show a.clock.status = .running from harun)]
  · have hidle : r.clock.Idle := (hinv.idle hrun).clock
    refine .inl ⟨hidle, ?_⟩
    rw [hstopped, hkept _ hidle]

theorem cancel_clock (hinv : r.core.StatusInv) (h : cancel ctx r = .ok r') :
    RunClock.Step ctx.now ctx.chargedAt r.clock r'.clock := by
  unfold cancel at h
  split at h
  · obtain rfl := pure_eq_ok.mp h
    exact .stay
  · simp only [bind_eq_ok] at h
    obtain ⟨-, -, h⟩ := h
    have hclock : r'.clock = { (stopAttempts ctx r).clock with
        status := .cancelled
        startedAt := none
        usedSeconds := r.clock.usedSeconds + r.clock.activeSeconds ctx.chargedAt } := by
      rw [controlEvent_clock h]
      rfl
    rcases stopAttempts_clock ctx hinv with ⟨hidle, hstopped⟩ | ⟨before, a, hattempts, hrun, hbefore,
      hstatus, hstopped⟩
    · rw [hclock, hstopped]
      exact .cancel hidle
    · rw [hclock, hstopped]
      have hstep : RunClock.Step ctx.now ctx.chargedAt r.clock { r.clock with
          status := .cancelled
          startedAt := none
          usedSeconds := r.clock.usedSeconds + r.clock.activeSeconds ctx.chargedAt
          attempts := before.map Attempt.clock ++
            [{ a.clock with status := .failed, endedAt := some ctx.now }]
          decisions := r.clock.decisions ++ []
          commands := r.clock.commands ++ [] } :=
        .stop (by simp [RunRows.clock, hattempts]) hrun hbefore (by decide) hstatus (by decide)
          (fun _ => ⟨rfl, by simp⟩) (by simp) (.inl ⟨rfl, by decide⟩)
      rw [List.append_nil, List.append_nil] at hstep
      exact hstep

theorem resume_clock (hinv : r.core.StatusInv) (hfrozen : r.core.BudgetFrozen)
    (h : resume ctx r = .ok r') :
    RunClock.Step ctx.now ctx.chargedAt r.clock r'.clock := by
  simp only [resume, bind_eq_ok, require_eq_ok, orThrow_eq_ok] at h
  obtain ⟨-, hstatus, snapshot, hsnapshot, -, -, -, -, h⟩ := h
  rw [controlEvent_clock h, RunRows.clock_send, RunRows.clock_setReason, RunRows.clock_setTask,
    RunRows.clock_setPhase, RunRows.clock_setStatus]
  refine .resume (hinv.idle (by rw [hstatus]; decide)).clock hstatus ?_
  have hbudget : snapshot.budget.seconds = r.run.budgetSeconds := (hfrozen snapshot hsnapshot).2
  change ((snapshot.budget.seconds : ℤ) - r.run.usedSeconds).toNat = _
  rw [hbudget]
  rfl

theorem reserve_clock {attemptId : AttemptId} {token : Option LeaseToken} {id : CallId}
    {reserved : ℕ} (h : reserve ctx attemptId token id reserved r = .ok r') :
    r'.clock = r.clock := by
  simp only [reserve, bind_eq_ok, pure_eq_ok] at h
  obtain ⟨-, -, a, -, -, -, -, -, -, -, -, -, -, -, rfl⟩ := h
  rfl

theorem settle_clock {id : CallId} {used : Option ℕ} (h : settle ctx id used r = .ok r') :
    r'.clock = r.clock := by
  unfold settle at h
  split at h
  · exact absurd h throw_ne_ok
  · split at h
    · simp only [bind_eq_ok, pure_eq_ok] at h
      obtain ⟨-, -, rfl⟩ := h
      rfl
    · rw [← pure_eq_ok.mp h]
      rfl

theorem updateMessage_clock {j : ℕ} {f : OutboxMessage → OutboxMessage}
    (hf : ∀ m, (f m).payload = m.payload) (h : updateMessage j f r = .ok r') :
    r'.clock = r.clock := by
  have hcommands : r'.clock.commands = r.clock.commands :=
    congrArg RunCore.commands (updateMessage_core hf h)
  simp only [updateMessage, bind_eq_ok, pure_eq_ok] at h
  obtain ⟨-, -, rfl⟩ := h
  have hrest : ({ r with outbox := r.outbox.modify j f } : RunRows).clock = { r.clock with
      commands := ({ r with outbox := r.outbox.modify j f } : RunRows).clock.commands } := rfl
  rw [hrest, hcommands]

theorem ingest_clock {event : ReportedEvent} (h : ingest ctx event r = .ok r') :
    r'.clock = r.clock := by
  simp only [ingest, bind_eq_ok, pure_eq_ok] at h
  obtain ⟨r₁, h₁, -, -, rfl⟩ := h
  exact recordEvent_clock h₁

/-- **Every transaction is a step of the clock.** -/
theorem RowStep.clock {w : Writer} (hinv : r.core.StatusInv) (hfrozen : r.core.BudgetFrozen)
    (h : RowStep ctx r r' w) : RunClock.Step ctx.now ctx.chargedAt r.clock r'.clock := by
  cases h with
  | claim h =>
    obtain ⟨hstatus, hidle, hclock⟩ := claimAttempt_clock hinv h
    rw [hclock]
    exact .claim hstatus hidle
  | heartbeat h => rw [heartbeat_clock h]; exact .stay
  | @complete seen i no outcome hcap h =>
    cases outcome with
    | succeeded extras => exact completeSucceeded_clock hinv hcap h
    | failed code extras => exact completeFailed_clock hinv hfrozen hcap h
  | leaseExpired hcap h => exact handleLeaseExpired_clock hinv hfrozen hcap h
  | saveCheckpoint h => rw [saveCheckpoint_clock h]; exact .stay
  | phase h => rw [phase_clock h]; exact .stay
  | environment h => rw [environment_clock h]; exact .stay
  | pause h => exact pause_clock hinv h
  | cancel h => exact cancel_clock hinv h
  | resume h => exact resume_clock hinv hfrozen h
  | reserve h => rw [reserve_clock h]; exact .stay
  | settle h => rw [settle_clock h]; exact .stay
  | ingest h => rw [ingest_clock h]; exact .stay
  | message hf h => rw [updateMessage_clock (fun m => (hf m).1) h]; exact .stay
  | markPublished h => 
    rw [updateMessage_clock (f := fun m => { m with
      status := .published, publishedAt := some ctx.now }) (fun _ => rfl) h]
    exact .stay

/-- The clock of a new run. -/
theorem Creates.clock (h : Creates ctx r) :
    r.clock.attempts = [] ∧ r.clock.decisions = [] ∧ r.clock.startedAt = none ∧
      r.clock.usedSeconds = 0 ∧
      ∃ command, r.clock.commands = [command] ∧ r.clock.Carries command := by
  cases h with
  | createTask h =>
    simp only [ControlPlane.createTask, bind_eq_ok, buildRunCommand, orThrow_eq_ok, pure_eq_ok] at h
    obtain ⟨input, -, fixture, -, baseCommit, -, -, -, r₁, h₁, command, ⟨fixture', -, rfl⟩, h₂⟩ := h
    have hclock := transitionRun_clock h₂
    rw [RunRows.clock_send, transitionTask_clock h₁] at hclock
    rw [hclock]
    refine ⟨rfl, rfl, rfl, rfl, _, rfl, ?_⟩
    have hrun : r₁.run.budgetSeconds =
        (fixtureRows ctx.toEnv input fixture baseCommit).run.budgetSeconds :=
      congrArg RunClock.budgetSeconds (transitionTask_clock h₁)
    unfold RunClock.Carries
    change r₁.run.budgetSeconds = _
    rw [hrun]
    simp [RunRows.clock, fixtureRows]
  | confirm h =>
    subst h
    refine ⟨rfl, rfl, rfl, rfl, _, rfl, ?_⟩
    rfl

end ControlPlane

end AgentReliability
