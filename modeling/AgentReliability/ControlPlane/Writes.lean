import AgentReliability.ControlPlane.EventLog
import Mathlib.Logic.Relation
/-!
# The statements a transaction is made of

The transactions on an existing run write its rows through a few kinds of
statement. `Write` lists the kinds, each with what it leaves alone, and
every committed transaction is a sequence of writes. An invariant of the
rows that each kind of write keeps is an invariant of the machine.
-/

namespace AgentReliability

namespace ControlPlane

open Relation (ReflTransGen)

variable {ctx : Context} {r r' seen : RunRows}

/-- The statuses a run moves to from one: by its transition table, or by
the hand of a person who resumes it. -/
def RunStatus.moves (s : RunStatus) : List RunStatus :=
  if s = .interrupted then .dispatched :: s.transitions else s.transitions

/-- The phases that go with a status. A worker reports the others. -/
def statusPhases : List String :=
  ["QUEUED", "NEEDS_ATTENTION", "AWAITING_APPROVAL", "FAILED", "CANCELLED"]

/-- The commands that carry on the run of the rows. -/
inductive Composes (ctx : Context) (r : RunRows) : RunCommand → Prop
  | retry {action : PolicyAction} {no : ℕ} {command : RunCommand}
      (h : retryCommand ctx r action no
        (if action = .resume then r.latestCheckpoint else none) = .ok command) :
      Composes ctx r command
  | resume {snapshot : TaskSnapshot} {no : ℕ} (h : r.task.snapshot = some snapshot) :
      Composes ctx r (commandFromSnapshot snapshot ctx.repoPath ctx.runId no r.run.usedTokens
        r.run.usedSeconds r.latestCheckpoint)

/-- **One statement of a transaction.** -/
inductive Write (ctx : Context) (r : RunRows) : RunRows → Prop
  | attempts (attempts : List Attempt) : Write ctx r { r with attempts }
  /-- The columns of the run that are neither its input, nor its status,
  nor the count of its events. -/
  | columns {phase : String} (hphase : phase = r.run.phase ∨ phase ∈ statusPhases)
      (usedTokens : ℕ) (usedSeconds : ℤ) (activeStartedAt : Option Time)
      (environmentId : Option ℕ) (imageId : Option String) :
      Write ctx r { r with run := { r.run with
        phase, usedTokens, usedSeconds, activeStartedAt, environmentId, imageId } }
  | task (status : TaskStatus) (attentionReason : Option String) :
      Write ctx r { r with task := { r.task with status, attentionReason } }
  /-- A move of the run to another status, with the event that logs it. -/
  | move {source target : RunStatus} {r' : RunRows} (hsource : r.run.status = source)
      (htarget : target ∈ source.moves)
      (h : controlEvent ctx source.name target.name (r.setStatus target) = .ok r') : Write ctx r r'
  /-- A phase a worker reported, with the event that logs it. -/
  | phase {p : Phase} {r' : RunRows}
      (h : controlEvent ctx r.run.phase p.name (r.setPhase p.name) = .ok r') : Write ctx r r'
  /-- An event that is no transition of the control plane's. -/
  | event {attemptId : Option AttemptId} {attemptSequence : ℕ} {type : TraceEventType}
      {payload : TracePayload} {key : ℕ → EventKey} {occurredAt : Time} {r' : RunRows}
      (hpayload : ∀ entity source target, payload ≠ .stateTransition entity source target)
      (h : recordEvent ctx r attemptId attemptSequence type payload key occurredAt = .ok r') :
      Write ctx r r'
  | send {command : RunCommand} (h : Composes ctx r command) (notBefore : Time) :
      Write ctx r (r.send command notBefore)
  | checkpoint {c : Checkpoint} (hrun : c.attemptId.runId = ctx.runId)
      (hbase : c.baseCommit = r.run.baseCommit) : Write ctx r (r.createCheckpoint c)
  | decisions (policyDecisions : List PolicyDecision) : Write ctx r { r with policyDecisions }
  | approval (patchDigest : Option String) : Write ctx r (r.createApproval patchDigest)
  | reports (artifacts : List Artifact) (verificationResults : List VerificationResult) :
      Write ctx r { r with artifacts, verificationResults }
  | calls (budgetCalls : List BudgetCall) : Write ctx r { r with budgetCalls }
  | message (j : ℕ) {f : OutboxMessage → OutboxMessage} (hf : ∀ m, (f m).payload = m.payload) :
      Write ctx r { r with outbox := r.outbox.modify j f }

/-- A sequence of writes. -/
def Writes (ctx : Context) : RunRows → RunRows → Prop := ReflTransGen (Write ctx)

namespace Writes

theorem refl (r : RunRows) : Writes ctx r r := ReflTransGen.refl

theorem one (h : Write ctx r r') : Writes ctx r r' := ReflTransGen.single h

theorem trans {a b c : RunRows} (h₁ : Writes ctx a b) (h₂ : Writes ctx b c) : Writes ctx a c :=
  ReflTransGen.trans h₁ h₂

/-- **What each write keeps, a sequence of them keeps.** -/
theorem keeps {P : RunRows → Prop} (hwrite : ∀ {a b}, P a → Write ctx a b → P b)
    (h : Writes ctx r r') (hr : P r) : P r' := by
  induction h with
  | refl => exact hr
  | tail _ hab ih => exact hwrite ih hab

/-! ## The row updates -/

theorem endAttempt (i : ℕ) (status : AttemptStatus) (code : Option FailureCode) (now : Time) :
    Writes ctx r (r.endAttempt i status code now) := one (.attempts _)

theorem setPhase {phase : String} (h : phase ∈ statusPhases) : Writes ctx r (r.setPhase phase) :=
  one (.columns (.inr h) _ _ _ _ _)

theorem stopClock : Writes ctx r r.stopClock := one (.columns (.inl rfl) _ _ _ _ _)

theorem addSeconds (seconds : ℤ) : Writes ctx r (r.addSeconds seconds) :=
  one (.columns (.inl rfl) _ _ _ _ _)

theorem setUsedTokens (usedTokens : ℕ) : Writes ctx r (r.setUsedTokens usedTokens) :=
  one (.columns (.inl rfl) _ _ _ _ _)

/-- The task is parked or queued, with the reason for it. -/
theorem setTask (status : TaskStatus) (reason : Option String) :
    Writes ctx r ((r.setTask status).setReason reason) := one (.task _ _)

theorem createArtifact (a : Artifact) : Writes ctx r (r.createArtifact a) := one (.reports _ _)

/-! ## The shared steps -/

theorem transitionRun {source target : RunStatus}
    (h : ControlPlane.transitionRun ctx source target r = .ok r') : Writes ctx r r' := by
  simp only [ControlPlane.transitionRun, bind_eq_ok, require_eq_ok] at h
  obtain ⟨-, hedge, -, hsource, hevent⟩ := h
  refine one (.move hsource ?_ hevent)
  unfold RunStatus.moves
  split
  · exact List.mem_cons_of_mem _ hedge
  · exact hedge

theorem transitionTask {source target : TaskStatus}
    (h : ControlPlane.transitionTask ctx source target r = .ok r') : Writes ctx r r' := by
  simp only [ControlPlane.transitionTask, bind_eq_ok, pure_eq_ok] at h
  obtain ⟨-, -, -, -, rfl⟩ := h
  exact one (.task _ _)

theorem appendSyntheticEvent {type : TraceEventType} {payload : TracePayload}
    {attemptId : Option AttemptId}
    (hpayload : ∀ entity source target, payload ≠ .stateTransition entity source target)
    (h : ControlPlane.appendSyntheticEvent ctx type payload attemptId r = .ok r') :
    Writes ctx r r' := one (.event hpayload h)

/-! ## The recovery policy -/

theorem chargeActive : Writes ctx r (chargeActive ctx r) := by
  unfold ControlPlane.chargeActive
  split
  · exact (addSeconds _).trans stopClock
  · exact refl r

theorem chargeBackoff (backoffMs : ℕ) : Writes ctx r (chargeBackoff backoffMs r) := by
  unfold ControlPlane.chargeBackoff
  split
  · exact (addSeconds _).trans (setPhase (by simp [statusPhases]))
  · exact refl r

theorem redispatch {i no : ℕ} {decision : PolicyDecisionResult}
    (h : redispatch ctx i no decision r = .ok r') : Writes ctx r r' := by
  simp only [ControlPlane.redispatch, bind_eq_ok] at h
  obtain ⟨r₁, h₁, command, hcommand, r₂, h₂, h₃⟩ := h
  -- The checkpoint was chosen before the transition, which leaves the checkpoints alone.
  have hlatest : r₁.latestCheckpoint = r.latestCheckpoint := by
    simp only [ControlPlane.transitionRun, ControlPlane.appendSyntheticEvent, recordEvent,
      bind_eq_ok, pure_eq_ok] at h₁
    obtain ⟨-, -, -, -, -, -, rfl⟩ := h₁
    rfl
  rw [← hlatest] at hcommand
  have hsend : Writes ctx r₁ (r₁.send command (ctx.now + decision.backoffMs)) :=
    one (.send (.retry hcommand) _)
  exact (((transitionRun h₁).trans hsend).trans
    (appendSyntheticEvent (by intro _ _ _; simp) h₂)).trans (transitionRun h₃)

theorem retry {i no : ℕ} {decision : PolicyDecisionResult}
    (h : retry ctx i no decision r = .ok r') : Writes ctx r r' := by
  unfold ControlPlane.retry at h
  simp only at h
  split at h
  · rw [pure_eq_ok] at h
    subst h
    exact ((chargeBackoff _).trans (setPhase (by simp [statusPhases]))).trans (setTask _ _)
  · exact (chargeBackoff _).trans (redispatch h)

theorem abortRun (h : abortRun ctx r = .ok r') : Writes ctx r r' := by
  simp only [ControlPlane.abortRun, bind_eq_ok] at h
  obtain ⟨r₁, h₁, h₂⟩ := h
  have hfirst : Writes ctx r r₁ :=
    ((setPhase (by simp [statusPhases])).trans stopClock).trans (transitionRun h₁)
  split at h₂
  · exact hfirst.trans (transitionTask h₂)
  · rw [pure_eq_ok] at h₂
    exact h₂ ▸ hfirst

theorem applyPolicy {i no : ℕ} {code : FailureCode} (h : applyPolicy ctx i no code r = .ok r') :
    Writes ctx r r' := by
  unfold ControlPlane.applyPolicy at h
  simp only at h
  split at h
  · rw [pure_eq_ok] at h
    subst h
    exact (((chargeActive.trans (setPhase (by simp [statusPhases]))).trans (addSeconds _)).trans
      stopClock).trans (setTask _ _)
  · -- The decision row is the same write in every branch.
    have hdecided : ∀ d : PolicyDecision,
        Writes ctx r ((ControlPlane.chargeActive ctx r).recordDecision d) :=
      fun d => chargeActive.trans (one (.decisions _))
    split at h
    · exact (hdecided _).trans (retry h)
    · exact (hdecided _).trans (retry h)
    · exact (hdecided _).trans (abortRun h)
    · rw [pure_eq_ok] at h
      subst h
      exact (((hdecided _).trans (setPhase (by simp [statusPhases]))).trans stopClock).trans
        (setTask _ _)

/-! ## The transactions -/

theorem persistExtras (i : ℕ) (extras : CompleteExtras) :
    Writes ctx r (persistExtras ctx seen i extras r) := by
  have hclock : Writes ctx r (persistClock ctx seen r) := by
    unfold persistClock
    split
    · exact (addSeconds _).trans stopClock
    · exact refl r
  have husage : ∀ x : RunRows, Writes ctx x (persistUsage seen extras x) := fun x => by
    unfold persistUsage
    split
    · exact refl x
    · split
      · exact (setUsedTokens _).trans (addSeconds _)
      · exact addSeconds _
  exact (hclock.trans (husage _)).trans (one (.reports _ _))

theorem interruptSeen (h : interruptSeen ctx seen r = .ok r') : Writes ctx r r' := by
  unfold ControlPlane.interruptSeen at h
  split at h
  · exact transitionRun h
  · rw [pure_eq_ok] at h
    exact h ▸ refl r

theorem claimAttempt {input : ClaimInput} (h : claimAttempt ctx seen input r = .ok r') :
    Writes ctx r r' := by
  simp only [ControlPlane.claimAttempt, bind_eq_ok] at h
  obtain ⟨-, -, r₁, h₁, h₂⟩ := h
  have hfirst : Writes ctx r r₁ := (one (.attempts _)).trans (transitionRun h₁)
  have hclock : Writes ctx r₁ { r₁ with run := { r₁.run with
      activeStartedAt := some (seen.run.activeStartedAt.getD ctx.now) } } :=
    one (.columns (.inl rfl) _ _ _ _ _)
  split at h₂
  · exact (hfirst.trans hclock).trans (transitionTask h₂)
  · rw [pure_eq_ok] at h₂
    exact h₂ ▸ hfirst.trans hclock

theorem completeSucceeded {i : ℕ} {extras : CompleteExtras}
    (h : completeSucceeded ctx seen i extras r = .ok r') : Writes ctx r r' := by
  simp only [ControlPlane.completeSucceeded, bind_eq_ok] at h
  obtain ⟨-, -, -, -, -, -, r₁, h₁, r₂, h₂, r₃, h₃, h₄⟩ := h
  have happroval : Writes ctx r₃
      ((r₃.setPhase "AWAITING_APPROVAL").createApproval (extras.patch?.map ctx.sha256)) :=
    (setPhase (by simp [statusPhases])).trans (one (.approval _))
  exact ((((((endAttempt _ _ _ _).trans (persistExtras _ _)).trans (transitionRun h₁)).trans
    (transitionRun h₂)).trans (transitionTask h₃)).trans happroval).trans
      (appendSyntheticEvent (by intro _ _ _; simp) h₄)

theorem completeFailed {i no : ℕ} {code : FailureCode} {extras : CompleteExtras}
    (h : completeFailed ctx seen i no code extras r = .ok r') : Writes ctx r r' := by
  simp only [ControlPlane.completeFailed, bind_eq_ok] at h
  obtain ⟨-, -, -, -, r₁, h₁, h₂⟩ := h
  exact (((endAttempt _ _ _ _).trans (persistExtras _ _)).trans (interruptSeen h₁)).trans
    (applyPolicy h₂)

theorem handleLeaseExpired {i no : ℕ} (h : handleLeaseExpired ctx seen i no r = .ok r') :
    Writes ctx r r' := by
  unfold ControlPlane.handleLeaseExpired at h
  split at h
  · rw [pure_eq_ok] at h
    exact h ▸ refl r
  · split at h
    · simp only [bind_eq_ok] at h
      obtain ⟨r₁, h₁, h₂⟩ := h
      exact ((endAttempt _ _ _ _).trans (interruptSeen h₁)).trans (applyPolicy h₂)
    · rw [pure_eq_ok] at h
      exact h ▸ refl r

theorem saveCheckpoint {input : Checkpoint} (h : saveCheckpoint ctx input r = .ok r') :
    Writes ctx r r' := by
  simp only [ControlPlane.saveCheckpoint, bind_eq_ok, require_eq_ok] at h
  obtain ⟨-, -, -, hrun, -, -, -, ⟨-, -, -, hbase⟩, h⟩ := h
  have hcreate : Writes ctx r (r.createCheckpoint input) := one (.checkpoint hrun hbase)
  split at h
  · rw [pure_eq_ok] at h
    exact h ▸ hcreate.trans (setUsedTokens _)
  · rw [pure_eq_ok] at h
    exact h ▸ hcreate

theorem phase {i : ℕ} {token : Option LeaseToken} {p : Phase} {detail : Option String}
    (h : phase ctx i token p detail r = .ok r') : Writes ctx r r' := by
  obtain ⟨-, h⟩ := withLease_ok h
  cases detail with
  | none => exact one (.phase h)
  | some content => exact (createArtifact _).trans (one (.phase h))

theorem environment {i : ℕ} {token : Option LeaseToken} {imageId : String}
    {environmentId : ℕ} {resolved : Option String}
    (h : environment ctx i token imageId environmentId resolved r = .ok r') : Writes ctx r r' := by
  obtain ⟨-, h⟩ := withLease_ok h
  simp only [bind_eq_ok, pure_eq_ok] at h
  obtain ⟨-, -, -, -, rfl⟩ := h
  exact one (.columns (.inl rfl) _ _ _ _ _)

/-- A pause writes everything else first and moves the run last, as far as
the rows it ends with can tell. -/
theorem pause {i : ℕ} {token : Option LeaseToken} {reason : String} {patch : Option String}
    (hinv : r.core.StatusInv) (h : pause ctx i token reason patch r = .ok r') :
    Writes ctx r r' := by
  obtain ⟨⟨a, -, hi⟩, h⟩ := withLease_ok h
  have hstatus : r.run.status = .running := (hinv.executing hi).2
  have hmoves : RunStatus.interrupted ∈ r.run.status.moves := by rw [hstatus]; decide
  have hrest : Writes ctx r ((((((r.setPhase "NEEDS_ATTENTION").addSeconds
      (activeSeconds ctx r.run)).stopClock).endAttempt i .failed none ctx.now).setTask
        .needsAttention).setReason (some reason)) :=
    ((((setPhase (by simp [statusPhases])).trans (addSeconds _)).trans stopClock).trans
      (endAttempt _ _ _ _)).trans (setTask _ _)
  cases hp : patch.filter (· ≠ "") with
  | none =>
    simp only [hp] at h
    exact hrest.trans (one (.move rfl hmoves h))
  | some content =>
    simp only [hp] at h
    exact (hrest.trans (createArtifact _)).trans (one (.move rfl hmoves h))

theorem cancel (h : cancel ctx r = .ok r') : Writes ctx r r' := by
  unfold ControlPlane.cancel at h
  split at h
  · rw [pure_eq_ok] at h
    exact h ▸ refl r
  · rename_i hne
    simp only [bind_eq_ok, require_eq_ok] at h
    obtain ⟨-, ⟨hsucceeded, hfailed⟩, h⟩ := h
    have hmoves : RunStatus.cancelled ∈ r.run.status.moves := by
      cases hs : r.run.status with
      | cancelled => exact absurd hs hne
      | succeeded => exact absurd hs hsucceeded
      | failed => exact absurd hs hfailed
      | _ => decide
    have hrest : Writes ctx r (stopAttempts ctx ((((r.setPhase "CANCELLED").addSeconds
        (activeSeconds ctx r.run)).stopClock).setTask .cancelled)) :=
      ((((setPhase (by simp [statusPhases])).trans (addSeconds _)).trans stopClock).trans
        (one (.task _ _))).trans (one (.attempts _))
    exact hrest.trans (one (.move rfl hmoves h))

theorem resume (h : resume ctx r = .ok r') : Writes ctx r r' := by
  simp only [ControlPlane.resume, bind_eq_ok, require_eq_ok, orThrow_eq_ok] at h
  obtain ⟨-, hstatus, snapshot, hsnap, -, -, -, -, h⟩ := h
  have hmoves : RunStatus.dispatched ∈ r.run.status.moves := by rw [hstatus]; decide
  have hrest : Writes ctx r (((r.setPhase "QUEUED").setTask .queued).setReason none) :=
    (setPhase (by simp [statusPhases])).trans (setTask _ _)
  have hsend : Composes ctx (((r.setPhase "QUEUED").setTask .queued).setReason none)
      (commandFromSnapshot snapshot ctx.repoPath ctx.runId (r.latestNo + 1) r.run.usedTokens
        r.run.usedSeconds r.latestCheckpoint) := .resume hsnap
  exact (hrest.trans (one (.send hsend ctx.now))).trans (one (.move rfl hmoves h))

theorem settle {id : CallId} {used : Option ℕ} (h : settle ctx id used r = .ok r') :
    Writes ctx r r' := by
  unfold ControlPlane.settle at h
  split at h
  · exact absurd h throw_ne_ok
  · split at h
    · simp only [bind_eq_ok, pure_eq_ok] at h
      obtain ⟨-, -, rfl⟩ := h
      exact refl r
    · rw [pure_eq_ok] at h
      exact h ▸ (one (.calls _)).trans (setUsedTokens _)

theorem ingest {event : ReportedEvent} (h : ingest ctx event r = .ok r') : Writes ctx r r' := by
  simp only [ControlPlane.ingest, bind_eq_ok, pure_eq_ok] at h
  obtain ⟨r₁, h₁, -, -, rfl⟩ := h
  exact one (.event (by intro _ _ _; simp) h₁)

theorem updateMessage {j : ℕ} {f : OutboxMessage → OutboxMessage}
    (hf : ∀ m, (f m).payload = m.payload) (h : updateMessage j f r = .ok r') :
    Writes ctx r r' := by
  simp only [ControlPlane.updateMessage, bind_eq_ok, pure_eq_ok] at h
  obtain ⟨-, -, rfl⟩ := h
  exact one (.message j hf)

end Writes

/-- **Every committed transaction is a sequence of writes.** -/
theorem RowStep.writes {w : Writer} (hinv : r.core.StatusInv) (h : RowStep ctx r r' w) :
    Writes ctx r r' := by
  cases h with
  | claim h => exact Writes.claimAttempt h
  | heartbeat h =>
    simp only [ControlPlane.heartbeat, bind_eq_ok, pure_eq_ok] at h
    obtain ⟨-, -, -, -, rfl⟩ := h
    exact .one (.attempts _)
  | @complete seen i no outcome hcap h =>
    cases outcome with
    | succeeded extras => exact Writes.completeSucceeded h
    | failed code extras => exact Writes.completeFailed h
  | leaseExpired hcap h => exact Writes.handleLeaseExpired h
  | saveCheckpoint h => exact Writes.saveCheckpoint h
  | phase h => exact Writes.phase h
  | environment h => exact Writes.environment h
  | pause h => exact Writes.pause hinv h
  | cancel h => exact Writes.cancel h
  | resume h => exact Writes.resume h
  | reserve h =>
    simp only [ControlPlane.reserve, bind_eq_ok, pure_eq_ok] at h
    obtain ⟨-, -, -, -, -, -, -, -, -, -, -, -, -, -, rfl⟩ := h
    exact .one (.calls _)
  | settle h => exact Writes.settle h
  | ingest h => exact Writes.ingest h
  | message hf h => exact Writes.updateMessage (fun m => (hf m).1) h
  | markPublished h =>
    refine Writes.updateMessage ?_ h
    exact fun _ => rfl

/-! ## The input of a run -/

/-- **The input of the run is the same.** Its task has at most another
status and another reason for attention. -/
structure SameInput (r r' : RunRows) : Prop where
  task : r'.task = { r.task with
    status := r'.task.status, attentionReason := r'.task.attentionReason }
  agentKind : r'.run.agentKind = r.run.agentKind
  baseCommit : r'.run.baseCommit = r.run.baseCommit
  budget : r'.run.budgetTokens = r.run.budgetTokens ∧
    r'.run.budgetSeconds = r.run.budgetSeconds ∧ r'.run.budgetTurns = r.run.budgetTurns

theorem SameInput.refl (r : RunRows) : SameInput r r := ⟨rfl, rfl, rfl, rfl, rfl, rfl⟩

theorem SameInput.trans {a b c : RunRows} (h₁ : SameInput a b) (h₂ : SameInput b c) :
    SameInput a c where
  task := by rw [h₂.task, h₁.task]
  agentKind := h₂.agentKind.trans h₁.agentKind
  baseCommit := h₂.baseCommit.trans h₁.baseCommit
  budget := ⟨h₂.budget.1.trans h₁.budget.1, h₂.budget.2.1.trans h₁.budget.2.1,
    h₂.budget.2.2.trans h₁.budget.2.2⟩

theorem sameInput_of_recordEvent {attemptId : Option AttemptId} {attemptSequence : ℕ}
    {type : TraceEventType} {payload : TracePayload} {key : ℕ → EventKey} {occurredAt : Time}
    (h : recordEvent ctx r attemptId attemptSequence type payload key occurredAt = .ok r') :
    SameInput r r' := by
  simp only [recordEvent, bind_eq_ok, pure_eq_ok] at h
  obtain ⟨-, -, rfl⟩ := h
  exact ⟨rfl, rfl, rfl, rfl, rfl, rfl⟩

theorem Write.sameInput (h : Write ctx r r') : SameInput r r' := by
  cases h with
  | move _ _ hevent =>
    have hstatus : ∀ status, SameInput r (r.setStatus status) :=
      fun _ => ⟨rfl, rfl, rfl, rfl, rfl, rfl⟩
    exact (hstatus _).trans (sameInput_of_recordEvent hevent)
  | phase hevent =>
    have hphase : ∀ phase, SameInput r (r.setPhase phase) :=
      fun _ => ⟨rfl, rfl, rfl, rfl, rfl, rfl⟩
    exact (hphase _).trans (sameInput_of_recordEvent hevent)
  | event _ hevent => exact sameInput_of_recordEvent hevent
  | _ => exact ⟨rfl, rfl, rfl, rfl, rfl, rfl⟩

theorem Writes.sameInput (h : Writes ctx r r') : SameInput r r' :=
  h.keeps (fun ha hw => ha.trans hw.sameInput) (SameInput.refl r)

/-- **No transaction changes the input of its run.** -/
theorem RowStep.sameInput {w : Writer} (hinv : r.core.StatusInv) (h : RowStep ctx r r' w) :
    SameInput r r' := (h.writes hinv).sameInput

/-- A run that is there keeps its input over an event. -/
theorem sameInput_step {s : State} (hs : Sound s) (e : Event) {id : RunId} {r : RunRows}
    (hr : s.db.runs[id]? = some r) :
    ∃ r', (step s e).db.runs[id]? = some r' ∧ SameInput r r' := by
  obtain ⟨r', hr', rfl | ⟨env, hrow⟩⟩ := rows_step_of_some hs e hr
  · exact ⟨r', hr', SameInput.refl r'⟩
  · exact ⟨r', hr', hrow.sameInput (hs.rows hr).1⟩

/-- **A run keeps its input**, whatever happens. -/
theorem sameInput_runFrom {s : State} (hs : machine.Reachable s) (es : List Event) {id : RunId}
    {r : RunRows} (hr : s.db.runs[id]? = some r) :
    ∃ r', (machine.runFrom s es).db.runs[id]? = some r' ∧ SameInput r r' := by
  induction es generalizing s r with
  | nil => exact ⟨r, hr, SameInput.refl r⟩
  | cons e es ih =>
    obtain ⟨r₁, hr₁, hsame⟩ := sameInput_step (sound_of_reachable hs) e hr
    obtain ⟨r₂, hr₂, hsame₂⟩ := ih (hs.step e) hr₁
    exact ⟨r₂, hr₂, hsame.trans hsame₂⟩

/-- **The invariant rule, by the write.** What the rows of a new run meet
and every write keeps, the rows of every run meet in every reachable
state. -/
theorem writes_invariant {P : RunId → RunRows → Prop}
    (hcreate : ∀ {db : Database} {env : Env} {r : RunRows},
      Creates (db.context env db.runs.length) r → P db.runs.length r)
    (hwrite : ∀ {db : Database} {env : Env} {id : RunId} {r r' : RunRows},
      P id r → Write (db.context env id) r r' → P id r')
    (es : List Event) {id : RunId} (hr : (machine.run es).db.runs[id]? = some r) : P id r :=
  rows_invariant hcreate
    (fun _ hinv _ hP h => (h.writes hinv).keeps (fun ha hw => hwrite ha hw) hP) es hr

end ControlPlane

end AgentReliability
