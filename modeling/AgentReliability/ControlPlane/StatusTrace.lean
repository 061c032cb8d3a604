import AgentReliability.ControlPlane.Reachability
/-!
# The status writes of a transaction

Which statements of a transaction write a status column, in the order of
the source, each with the value it replaces. `Traces` is what ties such a
list to the rows: executed one after another, the statements take the
columns from those before the transaction to those it commits. The
transactions of the run lifecycle and of the run control are `Lawful`: each
of their statements moves its column along an edge of its table. The one
exception is `resume`.
-/

namespace AgentReliability

namespace ControlPlane

variable {ctx : Context} {r r' seen : RunRows}

/-! ## Statements and their traces -/

/-- A statement that writes a status column: the row it creates, or the
column's value before and after. -/
inductive StatusWrite where
  | create (task : TaskStatus) (run : RunStatus)
  | createAttempt (status : AttemptStatus)
  | task (source target : TaskStatus)
  | run (source target : RunStatus)
  | attempt (index : ℕ) (source target : AttemptStatus)
  deriving DecidableEq, Repr

/-- An update leaves its column as it is, or moves it along an edge of its
transition table. -/
def StatusWrite.Legal : StatusWrite → Prop
  | create _ _ => True
  | createAttempt _ => True
  | task source target => source = target ∨ target ∈ source.transitions
  | run source target => source = target ∨ target ∈ source.transitions
  | attempt _ source target => source = target ∨ target ∈ source.transitions

instance : DecidablePred StatusWrite.Legal
  | .create _ _ => inferInstanceAs (Decidable True)
  | .createAttempt _ => inferInstanceAs (Decidable True)
  | .task source target => inferInstanceAs (Decidable (source = target ∨ _ ∈ source.transitions))
  | .run source target => inferInstanceAs (Decidable (source = target ∨ _ ∈ source.transitions))
  | .attempt _ source target =>
    inferInstanceAs (Decidable (source = target ∨ _ ∈ source.transitions))

/-- The status columns of a task, its run and its attempts. -/
structure Statuses where
  task : TaskStatus
  run : RunStatus
  attempts : List AttemptStatus
  deriving DecidableEq, Repr

def RunRows.statuses (r : RunRows) : Statuses :=
  ⟨r.task.status, r.run.status, r.attempts.map (·.status)⟩

/-- What one statement does to the columns, `none` before they exist. -/
inductive Takes : StatusWrite → Option Statuses → Option Statuses → Prop
  | create (task : TaskStatus) (run : RunStatus) :
      Takes (.create task run) none (some ⟨task, run, []⟩)
  | createAttempt (x : Statuses) (status : AttemptStatus) :
      Takes (.createAttempt status) (some x) (some { x with attempts := x.attempts ++ [status] })
  | task (x : Statuses) (target : TaskStatus) :
      Takes (.task x.task target) (some x) (some { x with task := target })
  | run (x : Statuses) (target : RunStatus) :
      Takes (.run x.run target) (some x) (some { x with run := target })
  | attempt {x : Statuses} {i : ℕ} {source : AttemptStatus} (hi : x.attempts[i]? = some source)
      (target : AttemptStatus) :
      Takes (.attempt i source target) (some x) (some { x with attempts := x.attempts.set i target })

/-- **The statements, one after another, take the columns from the first
to the last.** -/
inductive Traces : List StatusWrite → Option Statuses → Option Statuses → Prop
  | nil (x : Option Statuses) : Traces [] x x
  | cons {w : StatusWrite} {ws : List StatusWrite} {x y z : Option Statuses} (h : Takes w x y)
      (hs : Traces ws y z) : Traces (w :: ws) x z

theorem Takes.traces {w : StatusWrite} {x y : Option Statuses} (h : Takes w x y) :
    Traces [w] x y := .cons h (.nil y)

theorem Traces.append {ws vs : List StatusWrite} {x y z : Option Statuses} (h₁ : Traces ws x y)
    (h₂ : Traces vs y z) : Traces (ws ++ vs) x z := by
  induction h₁ with
  | nil => exact h₂
  | cons h _ ih => exact .cons h (ih h₂)

/-- **The statements take the columns of one state of the rows to those of
another, each along an edge of its table.** -/
structure Lawful (ws : List StatusWrite) (r r' : RunRows) : Prop where
  traces : Traces ws (some r.statuses) (some r'.statuses)
  legal : ∀ w ∈ ws, w.Legal

namespace Lawful

theorem nil (h : r'.statuses = r.statuses) : Lawful [] r r' where
  traces := h ▸ .nil _
  legal := fun _ hw => absurd hw List.not_mem_nil

theorem append {ws vs : List StatusWrite} {a b c : RunRows} (h₁ : Lawful ws a b)
    (h₂ : Lawful vs b c) : Lawful (ws ++ vs) a c where
  traces := h₁.traces.append h₂.traces
  legal := fun w hw => (List.mem_append.mp hw).elim (h₁.legal w) (h₂.legal w)

theorem one {w : StatusWrite} (h : Takes w (some r.statuses) (some r'.statuses))
    (hw : w.Legal) : Lawful [w] r r' where
  traces := h.traces
  legal := fun _ hv => List.mem_singleton.mp hv ▸ hw

/-- Rows with the same columns are as good as each other. -/
theorem congr {ws : List StatusWrite} {a b a' b' : RunRows} (h : Lawful ws a b)
    (ha : a'.statuses = a.statuses) (hb : b'.statuses = b.statuses) : Lawful ws a' b' where
  traces := by rw [ha, hb]; exact h.traces
  legal := h.legal

end Lawful

/-! ### The shared steps -/

/-- The columns are the abstract run's. -/
theorem statuses_of_core (h : r'.core = r.core) : r'.statuses = r.statuses := by
  have htask : r'.core.task = r.core.task := by rw [h]
  have hrun : r'.core.status = r.core.status := by rw [h]
  have hattempts : r'.core.attempts.map (·.status) = r.core.attempts.map (·.status) := by rw [h]
  simp only [RunRows.core, List.map_map] at htask hrun hattempts
  unfold RunRows.statuses
  rw [htask, hrun]
  exact congrArg _ hattempts

theorem Lawful.transitionRun {source target : RunStatus}
    (h : ControlPlane.transitionRun ctx source target r = .ok r') :
    Lawful [.run source target] r r' := by
  simp only [ControlPlane.transitionRun, bind_eq_ok, require_eq_ok] at h
  obtain ⟨-, hedge, -, rfl, hevent⟩ := h
  refine Lawful.one ?_ (.inr hedge)
  rw [statuses_of_core (appendSyntheticEvent_core hevent)]
  exact .run r.statuses target

theorem Lawful.transitionTask {source target : TaskStatus}
    (h : ControlPlane.transitionTask ctx source target r = .ok r') :
    Lawful [.task source target] r r' := by
  simp only [ControlPlane.transitionTask, bind_eq_ok, require_eq_ok, pure_eq_ok] at h
  obtain ⟨-, hedge, -, rfl, rfl⟩ := h
  exact Lawful.one (.task r.statuses target) (.inr hedge)

/-- A raw update of the task's column. -/
theorem Lawful.task {target : TaskStatus} (hedge : target ∈ r.task.status.transitions)
    (h : r'.statuses = { r.statuses with task := target }) :
    Lawful [.task r.task.status target] r r' := by
  refine Lawful.one ?_ (.inr hedge)
  rw [h]
  exact .task r.statuses target

theorem statuses_endAttempt (i : ℕ) (status : AttemptStatus) (code : Option FailureCode)
    (now : Time) : (r.endAttempt i status code now).statuses =
      { r.statuses with attempts := r.statuses.attempts.set i status } := by
  unfold RunRows.statuses RunRows.endAttempt
  simp only [Statuses.mk.injEq, true_and]
  refine List.ext_getElem? fun j => ?_
  rw [List.getElem?_map, List.getElem?_modify, List.getElem?_set, List.getElem?_map]
  by_cases hij : i = j
  · subst hij
    rcases ha : r.attempts[i]? with _ | a
    · simp [List.getElem?_eq_none_iff.mp ha]
    · simp [(List.getElem?_eq_some_iff.mp ha).1]
  · simp [hij]

theorem statuses_getElem? {i : ℕ} {a : Attempt} (ha : r.attempts[i]? = some a) :
    r.statuses.attempts[i]? = some a.status := by
  unfold RunRows.statuses
  rw [List.getElem?_map, ha]
  rfl

/-- The end of an attempt. -/
theorem Lawful.endAttempt {i : ℕ} {a : Attempt} (ha : r.attempts[i]? = some a)
    {status : AttemptStatus} (hedge : status ∈ a.status.transitions) (code : Option FailureCode)
    (now : Time) : Lawful [.attempt i a.status status] r (r.endAttempt i status code now) := by
  refine Lawful.one ?_ (.inr hedge)
  rw [statuses_endAttempt]
  exact .attempt (statuses_getElem? ha) status

/-! ## The columns a transaction relies on -/

/-- **What the raw updates rely on**: an attempt that is not over belongs
to a running run with a running task, and until the run has succeeded its
task goes with its status. -/
structure Orderly (r : RunRows) : Prop where
  executing : ∀ {i : ℕ} {a : Attempt}, r.attempts[i]? = some a →
    a.status = .running ∨ a.status = .claimed →
      a.status = .running ∧ r.run.status = .running ∧ r.task.status = .running
  task : r.run.status ≠ .succeeded → r.task.status ∈ RunCore.taskOf r.run.status

theorem orderly_of_statusInv (h : r.core.StatusInv) : Orderly r where
  executing := by
    intro i a ha hopen
    have hunclaimed : a.status ≠ .claimed :=
      h.unclaimed a.state (List.mem_map_of_mem (List.mem_of_getElem? ha))
    have hrunning : a.status = .running := hopen.resolve_right hunclaimed
    have hrun : r.run.status = .running :=
      (h.executing (RunRows.executing_of_running ha hrunning)).2
    have htask : r.task.status ∈ RunCore.taskOf r.run.status := h.task
    rw [hrun] at htask
    exact ⟨hrunning, hrun, List.mem_singleton.mp htask⟩
  task := fun _ => h.task

/-! ## The recovery policy -/

/-- `applyPolicy`, lines 537–591. -/
def retryWrites (decision : PolicyDecisionResult) (r : RunRows) : List StatusWrite :=
  let r := chargeBackoff decision.backoffMs r
  if r.isSnapshot ∧ r.run.budgetSeconds ≤ r.run.usedSeconds then
    [.task r.task.status .needsAttention]
  else [.run .interrupted .recovering, .run .recovering .dispatched]

/-- `applyPolicy`. -/
def policyWrites (ctx : Context) (i attemptNo : ℕ) (code : FailureCode) (r : RunRows) :
    List StatusWrite :=
  let r := chargeActive ctx r
  if r.isSnapshot ∧ budgetStops ctx r then [.task r.task.status .needsAttention]
  else
    let decision := policyDecision r attemptNo code
    let r := r.recordDecision {
      attemptId := ⟨ctx.runId, i⟩, failureCode := code, action := decision.action
      reason := decision.reason }
    match decision.action with
    | .resume => retryWrites decision r
    | .restartAttempt => retryWrites decision r
    | .abort =>
      .run .interrupted .failed ::
        if r.task.status = .running then [.task .running .failed] else []
    | .escalateHuman => [.task r.task.status .needsAttention]

theorem lawful_redispatch {i no : ℕ} {decision : PolicyDecisionResult}
    (h : redispatch ctx i no decision r = .ok r') :
    Lawful [.run .interrupted .recovering, .run .recovering .dispatched] r r' := by
  simp only [redispatch, bind_eq_ok] at h
  obtain ⟨r₁, h₁, command, -, r₂, h₂, h₃⟩ := h
  have hsent : r₂.statuses = (r₁.send command (ctx.now + decision.backoffMs)).statuses :=
    statuses_of_core (appendSyntheticEvent_core h₂)
  exact ((Lawful.transitionRun h₁).congr rfl hsent).append (Lawful.transitionRun h₃)

theorem statuses_chargeBackoff (backoffMs : ℕ) (r : RunRows) :
    (chargeBackoff backoffMs r).statuses = r.statuses :=
  statuses_of_core (chargeBackoff_core backoffMs)

theorem statuses_chargeActive (ctx : Context) (r : RunRows) :
    (chargeActive ctx r).statuses = r.statuses :=
  statuses_of_core (chargeActive_core ctx r)

/-- The task of an attempt that failed is parked. -/
theorem lawful_park (htask : r.task.status = .running)
    (h : r'.statuses = { r.statuses with task := .needsAttention }) :
    Lawful [.task r.task.status .needsAttention] r r' :=
  Lawful.task (by rw [htask]; decide) h

theorem lawful_retry {i no : ℕ} {decision : PolicyDecisionResult}
    (htask : r.task.status = .running) (h : retry ctx i no decision r = .ok r') :
    Lawful (retryWrites decision r) r r' := by
  have hcharged := statuses_chargeBackoff decision.backoffMs r
  unfold retry at h
  unfold retryWrites
  simp only at h ⊢
  generalize chargeBackoff decision.backoffMs r = charged at *
  split at h
  · rename_i hpark
    rw [if_pos hpark]
    rw [pure_eq_ok] at h
    subst h
    have hrunning : charged.task.status = .running := (congrArg Statuses.task hcharged).trans htask
    exact (lawful_park hrunning rfl).congr hcharged.symm rfl
  · rename_i hgo
    rw [if_neg hgo]
    exact (lawful_redispatch h).congr hcharged.symm rfl

theorem lawful_abortRun (h : abortRun ctx r = .ok r') :
    Lawful (.run .interrupted .failed ::
      if r.task.status = .running then [.task .running .failed] else []) r r' := by
  simp only [abortRun, bind_eq_ok] at h
  obtain ⟨r₁, h₁, h₂⟩ := h
  have hcore := (transitionRun_core h₁).2
  have htask : r₁.task.status = r.task.status := congrArg RunCore.task hcore
  have hfirst : Lawful [.run .interrupted .failed] r r₁ := (Lawful.transitionRun h₁).congr rfl rfl
  rw [htask] at h₂
  by_cases hrunning : r.task.status = .running
  · rw [if_pos hrunning] at h₂ ⊢
    exact hfirst.append (Lawful.transitionTask h₂)
  · rw [if_neg hrunning, pure_eq_ok] at h₂
    rw [if_neg hrunning]
    exact h₂ ▸ hfirst

/-- **The policy, on a run whose task is still running.** -/
theorem lawful_applyPolicy {i no : ℕ} {code : FailureCode} (htask : r.task.status = .running)
    (h : applyPolicy ctx i no code r = .ok r') : Lawful (policyWrites ctx i no code r) r r' := by
  have hcharged := statuses_chargeActive ctx r
  have hrunning : (chargeActive ctx r).task.status = .running :=
    (congrArg Statuses.task hcharged).trans htask
  refine Lawful.congr (a := chargeActive ctx r) ?_ hcharged.symm rfl
  unfold applyPolicy at h
  unfold policyWrites
  simp only at h ⊢
  generalize chargeActive ctx r = charged at *
  split at h
  · rename_i hstop
    rw [if_pos hstop]
    rw [pure_eq_ok] at h
    subst h
    exact lawful_park hrunning rfl
  · rename_i hgo
    rw [if_neg hgo]
    split at h
    · rename_i haction
      rw [haction] at h ⊢
      exact (lawful_retry (r := charged.recordDecision _) hrunning h).congr rfl rfl
    · rename_i haction
      rw [haction] at h ⊢
      exact (lawful_retry (r := charged.recordDecision _) hrunning h).congr rfl rfl
    · rename_i haction
      rw [haction] at h ⊢
      exact (lawful_abortRun h).congr rfl rfl
    · rename_i haction
      rw [haction] at h ⊢
      rw [pure_eq_ok] at h
      subst h
      exact lawful_park hrunning rfl

/-! ## The transactions -/

/-- `createTask`. -/
def createTaskWrites : List StatusWrite :=
  [.create .created .pending, .task .created .queued, .run .pending .dispatched]

/-- `confirm` creates the rows in the statuses they are committed with. -/
def confirmWrites : List StatusWrite := [.create .queued .dispatched]

/-- `claimAttempt`. -/
def claimWrites (r : RunRows) : List StatusWrite :=
  [.createAttempt .running, .run .dispatched .running] ++
    if r.task.status = .queued then [.task .queued .running] else []

def interruptWrites (seen : RunRows) : List StatusWrite :=
  if seen.run.status ∈ [.running, .verifying, .dispatched] then
    [.run seen.run.status .interrupted]
  else []

/-- Both failure paths, after the update of the attempt. -/
def failureWrites (ctx : Context) (seen : RunRows) (i attemptNo : ℕ) (code : FailureCode)
    (r : RunRows) : List StatusWrite :=
  interruptWrites seen ++
    match interruptSeen ctx seen r with
    | .ok r => policyWrites ctx i attemptNo code r
    | .error _ => []

/-- `completeAttempt`. -/
def completeWrites (ctx : Context) (seen : RunRows) (i attemptNo : ℕ) (outcome : Outcome)
    (r : RunRows) : List StatusWrite :=
  match outcome with
  | .succeeded _ => [
      .attempt i .running .succeeded, .run .running .verifying, .run .verifying .succeeded,
      .task .running .awaitingApproval]
  | .failed code extras =>
    .attempt i .running .failed :: failureWrites ctx seen i attemptNo code
      (persistExtras ctx seen i extras (r.endAttempt i .failed (some code) ctx.now))

/-- `handleLeaseExpired`. -/
def leaseExpiredWrites (ctx : Context) (seen : RunRows) (i attemptNo : ℕ) (r : RunRows) :
    List StatusWrite :=
  match r.attempts[i]? with
  | none => []
  | some a =>
    if leaseLost ctx a then
      .attempt i a.status .leaseExpired :: failureWrites ctx seen i attemptNo .workerLost
        (r.endAttempt i .leaseExpired (some .workerLost) ctx.now)
    else []

/-- `pause`. -/
def pauseWrites (i : ℕ) (r : RunRows) : List StatusWrite :=
  [.run r.run.status .interrupted, .attempt i .running .failed,
    .task r.task.status .needsAttention]

/-- The `updateMany` of `cancel`, on the attempts from position `i` on. -/
def stopWrites (i : ℕ) : List Attempt → List StatusWrite
  | [] => []
  | a :: attempts =>
    if a.status = .running ∨ a.status = .claimed then
      .attempt i a.status .failed :: stopWrites (i + 1) attempts
    else stopWrites (i + 1) attempts

/-- `cancel`. -/
def cancelWrites (r : RunRows) : List StatusWrite :=
  if r.run.status = .cancelled then []
  else .run r.run.status .cancelled :: .task r.task.status .cancelled :: stopWrites 0 r.attempts

/-- `resume`. -/
def resumeWrites (r : RunRows) : List StatusWrite :=
  [.run r.run.status .dispatched, .task r.task.status .queued]

theorem lawful_claimAttempt {input : ClaimInput} (h : claimAttempt ctx seen input r = .ok r') :
    Lawful (claimWrites r) r r' := by
  simp only [claimAttempt, bind_eq_ok] at h
  obtain ⟨-, -, r₁, h₁, h₂⟩ := h
  have hcore := (transitionRun_core h₁).2
  have htask : r₁.task.status = r.task.status := congrArg RunCore.task hcore
  have hcreate : Lawful [.createAttempt .running] r (r.createAttempt {
      no := input.attemptNo, workerId := input.workerId, status := .running
      leaseExpiresAt := some (ctx.now + ctx.leaseTtlMs), leaseToken := some ctx.leaseToken }) := by
    refine Lawful.one ?_ trivial
    unfold RunRows.statuses RunRows.createAttempt
    rw [List.map_append]
    exact .createAttempt r.statuses .running
  have hfirst := hcreate.append (Lawful.transitionRun h₁)
  unfold claimWrites
  rw [htask] at h₂
  by_cases hqueued : r.task.status = .queued
  · rw [if_pos hqueued] at h₂ ⊢
    exact hfirst.append ((Lawful.transitionTask h₂).congr rfl rfl)
  · rw [if_neg hqueued, pure_eq_ok] at h₂
    rw [if_neg hqueued, List.append_nil]
    subst h₂
    exact hfirst.congr rfl rfl

/-- **A failed attempt, interrupted and handed to the policy.** `ended` are
the rows with the attempt over. -/
theorem lawful_failure {i no : ℕ} {code : FailureCode} {ended interrupted : RunRows}
    (htask : ended.task.status = .running) (hseen : seen.run.status = .running)
    (h₁ : interruptSeen ctx seen ended = .ok interrupted)
    (h₂ : applyPolicy ctx i no code interrupted = .ok r') :
    Lawful (failureWrites ctx seen i no code ended) ended r' := by
  unfold failureWrites interruptWrites
  rw [h₁, hseen]
  unfold interruptSeen at h₁
  rw [hseen] at h₁
  have hrunning : interrupted.task.status = .running :=
    (congrArg RunCore.task (transitionRun_core h₁).2).trans htask
  exact (Lawful.transitionRun h₁).append (lawful_applyPolicy hrunning h₂)

theorem statuses_persistExtras (ctx : Context) (seen r : RunRows) (i : ℕ) (extras : CompleteExtras) :
    (persistExtras ctx seen i extras r).statuses = r.statuses := by
  obtain ⟨usedTokens, hcore, -⟩ := persistExtras_core ctx seen r i extras
  exact (statuses_of_core (r := r.setUsedTokens usedTokens) hcore)

theorem lawful_completeAttempt {i no : ℕ} {outcome : Outcome} (horder : Orderly r)
    (hcap : Captured seen r i no) (h : completeAttempt ctx seen i no outcome r = .ok r') :
    Lawful (completeWrites ctx seen i no outcome r) r r' := by
  cases outcome with
  | succeeded extras =>
    simp only [completeAttempt, completeSucceeded, bind_eq_ok, require_eq_ok, orThrow_eq_ok] at h
    obtain ⟨a, ha, -, ⟨hrunning, -⟩, -, -, r₁, h₁, r₂, h₂, r₃, h₃, h₄⟩ := h
    have hend : Lawful [.attempt i a.status .succeeded] r
        (persistExtras ctx seen i extras (r.endAttempt i .succeeded none ctx.now)) :=
      (Lawful.endAttempt ha (by rw [hrunning]; decide) none ctx.now).congr rfl
        (statuses_persistExtras ctx seen _ i extras)
    rw [hrunning] at hend
    have hlast : r'.statuses = r₃.statuses :=
      (statuses_of_core (appendSyntheticEvent_core h₄)).trans rfl
    have htask := (Lawful.transitionTask h₃).congr rfl hlast
    exact ((hend.append (Lawful.transitionRun h₁)).append (Lawful.transitionRun h₂)).append htask
  | failed code extras =>
    simp only [completeAttempt, completeFailed, bind_eq_ok, require_eq_ok, orThrow_eq_ok] at h
    obtain ⟨a, ha, -, hrunning, interrupted, h₁, h₂⟩ := h
    have hi := RunRows.executing_of_running ha hrunning
    rw [hcap.no_eq a ha] at hi
    have hextras := statuses_persistExtras ctx seen (r.endAttempt i .failed (some code) ctx.now) i
      extras
    have hend := (Lawful.endAttempt ha (by rw [hrunning]; decide) (some code) ctx.now).congr rfl
      hextras
    rw [hrunning] at hend
    have htask : (persistExtras ctx seen i extras
        (r.endAttempt i .failed (some code) ctx.now)).task.status = .running :=
      (congrArg Statuses.task hextras).trans (horder.executing ha (.inl hrunning)).2.2
    exact hend.append (lawful_failure htask (hcap.running hi) h₁ h₂)

theorem lawful_handleLeaseExpired {i no : ℕ} (horder : Orderly r) (hcap : Captured seen r i no)
    (h : handleLeaseExpired ctx seen i no r = .ok r') :
    Lawful (leaseExpiredWrites ctx seen i no r) r r' := by
  unfold handleLeaseExpired at h
  unfold leaseExpiredWrites
  cases ha : r.attempts[i]? with
  | none =>
    simp only [ha, pure_eq_ok] at h ⊢
    exact .nil (h ▸ rfl)
  | some a =>
    simp only [ha] at h ⊢
    by_cases hlost : leaseLost ctx a = true
    · rw [if_pos hlost] at h ⊢
      simp only [bind_eq_ok] at h
      obtain ⟨interrupted, h₁, h₂⟩ := h
      have hopen : a.status = .running ∨ a.status = .claimed := by
        simp only [leaseLost, Bool.and_eq_true, Bool.or_eq_true, decide_eq_true_eq] at hlost
        exact hlost.1.symm
      obtain ⟨hrunning, -, htask⟩ := horder.executing ha hopen
      have hi := RunRows.executing_of_running ha hrunning
      rw [hcap.no_eq a ha] at hi
      have hend := Lawful.endAttempt ha (show AttemptStatus.leaseExpired ∈ _ by
        rw [hrunning]; decide) (some .workerLost) ctx.now
      exact hend.append (lawful_failure htask (hcap.running hi) h₁ h₂)
    · rw [if_neg hlost, pure_eq_ok] at h
      rw [if_neg hlost]
      exact .nil (h ▸ rfl)

theorem lawful_pause {i : ℕ} {token : Option LeaseToken} {reason : String} {patch : Option String}
    (horder : Orderly r) (h : pause ctx i token reason patch r = .ok r') :
    Lawful (pauseWrites i r) r r' := by
  obtain ⟨⟨a, ha, hi⟩, h⟩ := withLease_ok h
  have hrunning : a.status = .running := by
    rw [RunCore.Executing, RunRows.core_attempts_getElem?, ha] at hi
    exact congrArg AttemptState.status (Option.some.inj hi)
  obtain ⟨-, hrun, htask⟩ := horder.executing ha (.inl hrunning)
  have hat : r.statuses.attempts[i]? = some .running := hrunning ▸ statuses_getElem? ha
  have hcolumns : r'.statuses =
      ⟨.needsAttention, .interrupted, r.statuses.attempts.set i .failed⟩ := by
    have hended := statuses_endAttempt (r := (((r.setStatus .interrupted).setPhase
      "NEEDS_ATTENTION").addSeconds (activeSeconds ctx r.run)).stopClock) i .failed none ctx.now
    rw [statuses_of_core (controlEvent_core h)]
    split <;> exact congrArg (fun x : Statuses => { x with task := .needsAttention }) hended
  refine ⟨?_, fun w hw => ?_⟩
  · have hrunTaken := Takes.run r.statuses .interrupted
    have htaken := Takes.attempt (x := { r.statuses with run := .interrupted }) hat .failed
    rw [hcolumns]
    exact .cons hrunTaken (.cons htaken (Takes.task ⟨_, _, _⟩ .needsAttention).traces)
  · simp only [pauseWrites, List.mem_cons, List.not_mem_nil, or_false, hrun, htask] at hw
    rcases hw with rfl | rfl | rfl <;> simp [StatusWrite.Legal, RunStatus.transitions,
      TaskStatus.transitions, AttemptStatus.transitions]

/-- The statements of `cancel` end every attempt that is not over. The
attempts from position `before.length` on are still to be looked at. -/
theorem traces_stopWrites (attempts : List Attempt) (x : Statuses) (before : List AttemptStatus)
    (hx : x.attempts = before ++ attempts.map (·.status)) :
    Traces (stopWrites before.length attempts) (some x) (some { x with
      attempts := before ++ attempts.map fun a =>
        if a.status = .running ∨ a.status = .claimed then .failed else a.status }) := by
  induction attempts generalizing x before with
  | nil =>
    have hsame : ({ x with attempts := before ++ [] } : Statuses) = x := by
      rw [show before ++ [] = x.attempts from hx.symm]
    exact hsame ▸ .nil _
  | cons a attempts ih =>
    have hlength : ∀ s : AttemptStatus, before.length + 1 = (before ++ [s]).length := by simp
    rw [stopWrites]
    by_cases hopen : a.status = .running ∨ a.status = .claimed
    · have hat : x.attempts[before.length]? = some a.status := by
        rw [hx]
        simp
      have hset : x.attempts.set before.length .failed =
          before ++ [AttemptStatus.failed] ++ attempts.map (·.status) := by
        rw [hx]
        simp
      have hrest := ih { x with attempts := x.attempts.set before.length .failed }
        (before ++ [.failed]) hset
      rw [if_pos hopen, hlength .failed]
      rw [List.map_cons, if_pos hopen, List.append_cons before .failed (attempts.map _)]
      exact .cons (.attempt hat .failed) hrest
    · have hrest := ih x (before ++ [a.status]) (by rw [hx]; simp)
      rw [if_neg hopen, hlength a.status]
      rw [List.map_cons, if_neg hopen, List.append_cons before a.status (attempts.map _)]
      exact hrest

theorem legal_stopWrites (attempts : List Attempt) (i : ℕ) :
    ∀ w ∈ stopWrites i attempts, w.Legal := by
  induction attempts generalizing i with
  | nil => exact fun w hw => absurd hw List.not_mem_nil
  | cons a attempts ih =>
    intro w hw
    rw [stopWrites] at hw
    split at hw
    · rename_i hopen
      rcases List.mem_cons.mp hw with rfl | hw
      · rcases hopen with hs | hs <;> simp [StatusWrite.Legal, AttemptStatus.transitions, hs]
      · exact ih (i + 1) w hw
    · exact ih (i + 1) w hw

/-- A run that has not ended can be cancelled, and so can its task. -/
theorem cancelled_mem_transitions {run : RunStatus} {task : TaskStatus} (hrun : ¬ run.isTerminal)
    (htask : task ∈ RunCore.taskOf run) :
    .cancelled ∈ run.transitions ∧ .cancelled ∈ task.transitions := by
  revert hrun htask
  cases run <;> cases task <;> decide

theorem lawful_cancel (horder : Orderly r) (h : cancel ctx r = .ok r') :
    Lawful (cancelWrites r) r r' := by
  unfold cancel at h
  unfold cancelWrites
  by_cases hcancelled : r.run.status = .cancelled
  · rw [if_pos hcancelled, pure_eq_ok] at h
    rw [if_pos hcancelled]
    exact .nil (h ▸ rfl)
  · rw [if_neg hcancelled] at h ⊢
    simp only [bind_eq_ok, require_eq_ok] at h
    obtain ⟨-, ⟨hsucceeded, hfailed⟩, h⟩ := h
    have hended : ¬ r.run.status.isTerminal := by
      rw [RunStatus.isTerminal_iff]
      rintro (hs | hs | hs)
      · exact hsucceeded hs
      · exact hfailed hs
      · exact hcancelled hs
    have hedges := cancelled_mem_transitions hended (horder.task hsucceeded)
    refine ⟨?_, fun w hw => ?_⟩
    · have hcolumns : r'.statuses = ⟨.cancelled, .cancelled, r.attempts.map fun a =>
          if a.status = .running ∨ a.status = .claimed then .failed else a.status⟩ := by
        rw [statuses_of_core (controlEvent_core h)]
        unfold RunRows.statuses stopAttempts
        rw [List.map_map]
        refine congrArg _ (List.map_congr_left fun a _ => ?_)
        rw [Function.comp_apply]
        split <;> rfl
      have hstop := traces_stopWrites r.attempts
        { r.statuses with run := .cancelled, task := .cancelled } [] rfl
      rw [hcolumns]
      exact .cons (.run r.statuses .cancelled)
        (.cons (.task { r.statuses with run := .cancelled } .cancelled) hstop)
    · rcases List.mem_cons.mp hw with rfl | hw
      · exact .inr hedges.1
      · rcases List.mem_cons.mp hw with rfl | hw
        · exact .inr hedges.2
        · exact legal_stopWrites r.attempts 0 w hw

/-- What `resume` writes. Its first statement is not along an edge. -/
theorem traces_resume (h : resume ctx r = .ok r') :
    Traces (resumeWrites r) (some r.statuses) (some r'.statuses) := by
  simp only [resume, bind_eq_ok] at h
  obtain ⟨_, -, _, -, _, -, _, -, h⟩ := h
  rw [statuses_of_core (controlEvent_core h)]
  exact .cons (.run r.statuses .dispatched)
    (Takes.task { r.statuses with run := .dispatched } .queued).traces

theorem traces_createTask {runs : List RunRows} {input : CreateTaskInput}
    (h : createTask ctx runs input = .ok r) : Traces createTaskWrites none (some r.statuses) := by
  simp only [createTask, bind_eq_ok] at h
  obtain ⟨input', -, fixture, -, baseCommit, -, -, -, r₁, h₁, command, -, h₂⟩ := h
  have hcreate := Takes.create .created .pending
  exact .cons hcreate (((Lawful.transitionTask h₁).congr rfl rfl).append
    ((Lawful.transitionRun h₂).congr rfl rfl)).traces

theorem traces_confirm {snapshot : TaskSnapshot} {key : String} :
    Traces confirmWrites none (some (snapshotRows ctx snapshot key).statuses) :=
  (Takes.create .queued .dispatched).traces

/-! ### The transactions that write no status -/

theorem statuses_saveCheckpoint {input : Checkpoint} (h : saveCheckpoint ctx input r = .ok r') :
    r'.statuses = r.statuses := by
  simp only [saveCheckpoint, bind_eq_ok] at h
  obtain ⟨-, -, -, -, _, -, -, -, h⟩ := h
  split at h
  · rw [pure_eq_ok] at h
    exact h ▸ rfl
  · rw [pure_eq_ok] at h
    exact h ▸ rfl

theorem statuses_reserve {attemptId : AttemptId} {token : Option LeaseToken} {id : CallId}
    {reserved : ℕ} (h : reserve ctx attemptId token id reserved r = .ok r') :
    r'.statuses = r.statuses := by
  simp only [reserve, bind_eq_ok, pure_eq_ok] at h
  obtain ⟨-, -, _, -, -, -, -, -, -, -, -, -, -, -, rfl⟩ := h
  rfl

theorem statuses_settle {id : CallId} {used : Option ℕ} (h : settle ctx id used r = .ok r') :
    r'.statuses = r.statuses := by
  unfold settle at h
  split at h
  · exact absurd h throw_ne_ok
  · split at h
    · simp only [bind_eq_ok, pure_eq_ok] at h
      obtain ⟨-, -, rfl⟩ := h
      rfl
    · rw [pure_eq_ok] at h
      exact h ▸ rfl

end ControlPlane

end AgentReliability
