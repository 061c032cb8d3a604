import AgentReliability.ControlPlane.Reachability
/-!
# The event log and the outbox only grow

Every transaction writes the event log through `recordEvent`: it takes the
next number of the run and inserts the event under it. So the events of a
run are numbered `1..m` in the order they were committed, `lastSequence`
is `m`, and a later version of the log only adds to an earlier one. The
outbox grows the same way, by messages that are pending.
-/

namespace AgentReliability

namespace ControlPlane

variable {ctx : Context} {r r' seen : RunRows} {K : TraceEvent → Prop} {S : RunCommand → Prop}

/-- **The log of `r'` goes on from that of `r`**: with events that meet `K`,
under the numbers that follow. -/
def LogGrows (K : TraceEvent → Prop) (r r' : RunRows) : Prop :=
  ∃ added : List TraceEvent,
    r'.traceEvents = r.traceEvents ++ added ∧
    added.map (·.runSequence) = List.range' (r.run.lastSequence + 1) added.length ∧
    r'.run.lastSequence = r.run.lastSequence + added.length ∧ ∀ e ∈ added, K e

/-- **The outbox of `r'` goes on from that of `r`**, with pending messages
whose commands meet `S`. A transaction that sends nothing has every `S`. -/
def OutboxGrows (S : RunCommand → Prop) (r r' : RunRows) : Prop :=
  ∃ sent : List OutboxMessage, r'.outbox = r.outbox ++ sent ∧
    ∀ m ∈ sent, m.status = .pending ∧ S m.payload

/-- What a transaction appends, beside the ledger. -/
structure Grows (K : TraceEvent → Prop) (S : RunCommand → Prop) (r r' : RunRows) : Prop where
  log : LogGrows K r r'
  outbox : OutboxGrows S r r'
  calls : r'.budgetCalls = r.budgetCalls

/-- The keys a writer gives its events. -/
def Writer.Keys (runId : RunId) : Writer → TraceEvent → Prop
  | runtime key, e => e.idempotencyKey = key
  | _, e => e.idempotencyKey = .platform runId e.runSequence

theorem LogGrows.trans {a b c : RunRows} (h₁ : LogGrows K a b) (h₂ : LogGrows K b c) :
    LogGrows K a c := by
  obtain ⟨xs, hxs, hnx, hlx, hkx⟩ := h₁
  obtain ⟨ys, hys, hny, hly, hky⟩ := h₂
  refine ⟨xs ++ ys, ?_, ?_, ?_, ?_⟩
  · rw [hys, hxs, List.append_assoc]
  · -- The numbers of the second stretch start where those of the first end.
    have hstart : b.run.lastSequence + 1 = a.run.lastSequence + 1 + xs.length := by omega
    rw [List.map_append, hnx, hny, hstart, List.length_append, List.range'_append_1]
  · rw [List.length_append]
    omega
  · intro e he
    rcases List.mem_append.mp he with he | he
    · exact hkx e he
    · exact hky e he

theorem OutboxGrows.trans {a b c : RunRows} (h₁ : OutboxGrows S a b)
    (h₂ : OutboxGrows S b c) : OutboxGrows S a c := by
  obtain ⟨xs, hxs, hpx⟩ := h₁
  obtain ⟨ys, hys, hpy⟩ := h₂
  refine ⟨xs ++ ys, by rw [hys, hxs, List.append_assoc], fun m hm => ?_⟩
  rcases List.mem_append.mp hm with hm | hm
  · exact hpx m hm
  · exact hpy m hm

/-- A write that touches neither the events nor the counter. -/
theorem LogGrows.of_eq (hevents : r'.traceEvents = r.traceEvents)
    (hlast : r'.run.lastSequence = r.run.lastSequence) : LogGrows K r r' :=
  ⟨[], by simp [hevents], rfl, by simp [hlast], by simp⟩

theorem OutboxGrows.of_eq (houtbox : r'.outbox = r.outbox) : OutboxGrows S r r' :=
  ⟨[], by simp [houtbox], by simp⟩

namespace Grows

/-- A write that touches none of them. -/
theorem of_eq (hevents : r'.traceEvents = r.traceEvents)
    (hlast : r'.run.lastSequence = r.run.lastSequence) (houtbox : r'.outbox = r.outbox)
    (hcalls : r'.budgetCalls = r.budgetCalls) : Grows K S r r' :=
  ⟨.of_eq hevents hlast, .of_eq houtbox, hcalls⟩

theorem refl (r : RunRows) : Grows K S r r := of_eq rfl rfl rfl rfl

theorem trans {a b c : RunRows} (h₁ : Grows K S a b) (h₂ : Grows K S b c) : Grows K S a c :=
  ⟨h₁.log.trans h₂.log, h₁.outbox.trans h₂.outbox, h₂.calls.trans h₁.calls⟩

/-- A write that touches none of them comes first. -/
theorem of_write {x : RunRows} (h : Grows K S x r') (hevents : x.traceEvents = r.traceEvents)
    (hlast : x.run.lastSequence = r.run.lastSequence) (houtbox : x.outbox = r.outbox)
    (hcalls : x.budgetCalls = r.budgetCalls) : Grows K S r r' :=
  (of_eq hevents hlast houtbox hcalls).trans h

theorem send {command : RunCommand} (hS : S command) (notBefore : Time) :
    Grows K S r (r.send command notBefore) := by
  refine ⟨.of_eq rfl rfl, ⟨[_], rfl, fun m hm => ?_⟩, rfl⟩
  rw [List.mem_singleton.mp hm]
  exact ⟨rfl, hS⟩

end Grows

/-! ## The steps the services share -/

theorem recordEvent_grows {attemptId : Option AttemptId} {attemptSequence : ℕ}
    {type : TraceEventType} {payload : TracePayload} {key : ℕ → EventKey} {occurredAt : Time}
    (hK : ∀ e : TraceEvent, e.idempotencyKey = key e.runSequence →
      ctx.keyTaken e.idempotencyKey = false → K e)
    (h : recordEvent ctx r attemptId attemptSequence type payload key occurredAt = .ok r') :
    Grows K S r r' := by
  simp only [recordEvent, bind_eq_ok, require_eq_ok, pure_eq_ok] at h
  obtain ⟨-, ⟨hfree, -⟩, rfl⟩ := h
  refine ⟨⟨[_], rfl, rfl, rfl, fun e he => ?_⟩, .of_eq rfl, rfl⟩
  rw [List.mem_singleton.mp he]
  exact hK _ rfl hfree

/-- The events of the control plane itself. -/
def OwnEvent (ctx : Context) (e : TraceEvent) : Prop :=
  e.idempotencyKey = .platform ctx.runId e.runSequence

/-- An event of the control plane, under a key that was free. -/
def FreshEvent (ctx : Context) (e : TraceEvent) : Prop :=
  OwnEvent ctx e ∧ ctx.keyTaken e.idempotencyKey = false

theorem appendSyntheticEvent_grows {type : TraceEventType} {payload : TracePayload}
    {attemptId : Option AttemptId}
    (h : appendSyntheticEvent ctx type payload attemptId r = .ok r') :
    Grows (FreshEvent ctx) S r r' :=
  recordEvent_grows (fun _ he hfree => ⟨he, hfree⟩) h

theorem controlEvent_grows {source target : String}
    (h : controlEvent ctx source target r = .ok r') : Grows (FreshEvent ctx) S r r' :=
  recordEvent_grows (fun _ he hfree => ⟨he, hfree⟩) h

theorem transitionRun_grows {source target : RunStatus}
    (h : transitionRun ctx source target r = .ok r') : Grows (FreshEvent ctx) S r r' := by
  simp only [transitionRun, bind_eq_ok, require_eq_ok] at h
  obtain ⟨-, -, -, -, hevent⟩ := h
  exact (appendSyntheticEvent_grows hevent).of_write rfl rfl rfl rfl

theorem transitionTask_grows {source target : TaskStatus}
    (h : transitionTask ctx source target r = .ok r') : Grows K S r r' := by
  simp only [transitionTask, bind_eq_ok, require_eq_ok, pure_eq_ok] at h
  obtain ⟨-, -, -, -, rfl⟩ := h
  exact .of_eq rfl rfl rfl rfl

/-! ## The recovery policy -/

theorem chargeActive_grows : Grows K S r (chargeActive ctx r) := by
  unfold chargeActive
  split
  · exact .of_eq rfl rfl rfl rfl
  · exact .refl r

theorem chargeBackoff_grows (backoffMs : ℕ) : Grows K S r (chargeBackoff backoffMs r) := by
  unfold chargeBackoff
  split
  · exact .of_eq rfl rfl rfl rfl
  · exact .refl r

/-- The commands a decision allows: one that carries a checkpoint is a
`resume`'s. -/
def GoesOnBy (action : PolicyAction) (command : RunCommand) : Prop :=
  command.checkpointId.isSome → action = .resume

theorem redispatch_grows {i no : ℕ} {decision : PolicyDecisionResult}
    (hS : ∀ command, GoesOnBy decision.action command → S command)
    (h : redispatch ctx i no decision r = .ok r') : Grows (FreshEvent ctx) S r r' := by
  simp only [redispatch, bind_eq_ok] at h
  obtain ⟨r₁, h₁, command, hcommand, r₂, h₂, h₃⟩ := h
  have hgoesOn : GoesOnBy decision.action command := by
    intro hsome
    rw [(retryCommand_ok hcommand).2.1] at hsome
    by_contra hne
    rw [if_neg hne] at hsome
    exact absurd hsome (by decide)
  exact (((transitionRun_grows h₁).trans (.send (hS command hgoesOn) _)).trans
    (appendSyntheticEvent_grows h₂)).trans (transitionRun_grows h₃)

theorem retry_grows {i no : ℕ} {decision : PolicyDecisionResult}
    (hS : ∀ command, GoesOnBy decision.action command → S command)
    (h : retry ctx i no decision r = .ok r') : Grows (FreshEvent ctx) S r r' := by
  have hcharge : Grows (FreshEvent ctx) S r (chargeBackoff decision.backoffMs r) :=
    chargeBackoff_grows _
  unfold retry at h
  simp only at h
  split at h
  · rw [pure_eq_ok] at h
    subst h
    exact hcharge.trans (.of_eq rfl rfl rfl rfl)
  · exact hcharge.trans (redispatch_grows hS h)

theorem abortRun_grows (h : abortRun ctx r = .ok r') : Grows (FreshEvent ctx) S r r' := by
  simp only [abortRun, bind_eq_ok] at h
  obtain ⟨r₁, h₁, h₂⟩ := h
  have hfirst : Grows (FreshEvent ctx) S r r₁ := (transitionRun_grows h₁).of_write rfl rfl rfl rfl
  split at h₂
  · exact hfirst.trans (transitionTask_grows h₂)
  · rw [pure_eq_ok] at h₂
    exact h₂ ▸ hfirst

/-- The action the table decides for an attempt of a run. -/
def tableAction (r : RunRows) (no : ℕ) (code : FailureCode) : PolicyAction :=
  (decidePolicy { failureCode := code, attemptNo := no, maxAttempts := r.run.maxAttempts }).action

/-- A run without recovery decides no `resume`. -/
theorem tableAction_of_policyDecision {no : ℕ} {code : FailureCode}
    (h : (policyDecision r no code).action = .resume) : tableAction r no code = .resume := by
  unfold policyDecision at h
  split at h
  · exact absurd h (by simp)
  · exact h

theorem applyPolicy_grows {i no : ℕ} {code : FailureCode}
    (hS : ∀ command, GoesOnBy (tableAction r no code) command → S command)
    (h : applyPolicy ctx i no code r = .ok r') : Grows (FreshEvent ctx) S r r' := by
  have hcharge : Grows (FreshEvent ctx) S r (chargeActive ctx r) := chargeActive_grows
  have hS' : ∀ command, GoesOnBy (policyDecision (chargeActive ctx r) no code).action command →
      S command := by
    intro command hgoesOn
    refine hS command fun hsome => ?_
    have hsame : (chargeActive ctx r).run.maxAttempts = r.run.maxAttempts :=
      congrArg RunCore.maxAttempts (chargeActive_core ctx r)
    have htable := tableAction_of_policyDecision (hgoesOn hsome)
    unfold tableAction at htable ⊢
    rw [← hsame]
    exact htable
  unfold applyPolicy at h
  simp only at h
  split at h
  · rw [pure_eq_ok] at h
    subst h
    have hstopped : ∀ (charged : RunRows) (seconds : ℤ) (reason : Option String),
        Grows (FreshEvent ctx) S charged (((((charged.setPhase "NEEDS_ATTENTION").addSeconds
          seconds).stopClock).setTask .needsAttention).setReason reason) :=
      fun _ _ _ => .of_eq rfl rfl rfl rfl
    exact hcharge.trans (hstopped _ _ _)
  · -- The decision row is the same write in every branch.
    have hdecided : ∀ d : PolicyDecision,
        Grows (FreshEvent ctx) S r ((chargeActive ctx r).recordDecision d) :=
      fun d => hcharge.trans (.of_eq rfl rfl rfl rfl)
    split at h
    · exact (hdecided _).trans (retry_grows hS' h)
    · exact (hdecided _).trans (retry_grows hS' h)
    · exact (hdecided _).trans (abortRun_grows h)
    · rw [pure_eq_ok] at h
      subst h
      have hescalated : ∀ decided : RunRows,
          Grows (FreshEvent ctx) S decided (escalate code decided) :=
        fun _ => .of_eq rfl rfl rfl rfl
      exact (hdecided _).trans (hescalated _)

/-! ## The transactions -/

theorem persistExtras_grows (i : ℕ) (extras : CompleteExtras) :
    Grows K S r (persistExtras ctx seen i extras r) := by
  have hclock : Grows K S r (persistClock ctx seen r) := by
    unfold persistClock
    split
    · exact .of_eq rfl rfl rfl rfl
    · exact .refl r
  have husage : ∀ x : RunRows, Grows K S x (persistUsage seen extras x) := fun x => by
    unfold persistUsage
    split
    · exact .refl x
    · split <;> exact .of_eq rfl rfl rfl rfl
  exact (hclock.trans (husage _)).trans (.of_eq rfl rfl rfl rfl)

theorem interruptSeen_grows (h : interruptSeen ctx seen r = .ok r') :
    Grows (FreshEvent ctx) S r r' := by
  unfold interruptSeen at h
  split at h
  · exact transitionRun_grows h
  · rw [pure_eq_ok] at h
    exact h ▸ .refl r

/-- Both failure paths end in the policy, for a run with the same limit. -/
theorem tableAction_of_maxAttempts {x : RunRows} {no : ℕ} {code : FailureCode}
    (h : x.core.maxAttempts = r.core.maxAttempts) : tableAction x no code = tableAction r no code := by
  have hsame : x.run.maxAttempts = r.run.maxAttempts := h
  unfold tableAction
  rw [hsame]

theorem interruptSeen_maxAttempts (h : interruptSeen ctx seen r = .ok r') :
    r'.core.maxAttempts = r.core.maxAttempts := by
  unfold interruptSeen at h
  split at h
  · rw [(transitionRun_core h).2]
  · rw [pure_eq_ok] at h
    rw [h]

theorem completeSucceeded_grows {i : ℕ} {extras : CompleteExtras}
    (h : completeSucceeded ctx seen i extras r = .ok r') : Grows (FreshEvent ctx) S r r' := by
  simp only [completeSucceeded, bind_eq_ok] at h
  obtain ⟨-, -, -, -, -, -, r₁, h₁, r₂, h₂, r₃, h₃, h₄⟩ := h
  have hextras : Grows (FreshEvent ctx) S r
      (persistExtras ctx seen i extras (r.endAttempt i .succeeded none ctx.now)) :=
    (persistExtras_grows i extras).of_write rfl rfl rfl rfl
  have happroval : Grows (FreshEvent ctx) S r₃
      ((r₃.setPhase "AWAITING_APPROVAL").createApproval (extras.patch?.map ctx.sha256)) :=
    .of_eq rfl rfl rfl rfl
  exact ((((hextras.trans (transitionRun_grows h₁)).trans (transitionRun_grows h₂)).trans
    (transitionTask_grows h₃)).trans happroval).trans (appendSyntheticEvent_grows h₄)

theorem completeFailed_grows {i no : ℕ} {code : FailureCode} {extras : CompleteExtras}
    (hS : ∀ command, GoesOnBy (tableAction r no code) command → S command)
    (h : completeFailed ctx seen i no code extras r = .ok r') : Grows (FreshEvent ctx) S r r' := by
  simp only [completeFailed, bind_eq_ok] at h
  obtain ⟨-, -, -, -, r₁, h₁, h₂⟩ := h
  have hextras : Grows (FreshEvent ctx) S r
      (persistExtras ctx seen i extras (r.endAttempt i .failed (some code) ctx.now)) :=
    (persistExtras_grows i extras).of_write rfl rfl rfl rfl
  obtain ⟨usedTokens, hcore, -⟩ := persistExtras_core ctx seen
    (r.endAttempt i .failed (some code) ctx.now) i extras
  have hmax : r₁.core.maxAttempts = r.core.maxAttempts := by
    rw [interruptSeen_maxAttempts h₁, hcore]
    rfl
  rw [← tableAction_of_maxAttempts hmax] at hS
  exact (hextras.trans (interruptSeen_grows h₁)).trans (applyPolicy_grows hS h₂)

theorem handleLeaseExpired_grows {i no : ℕ}
    (hS : ∀ command, GoesOnBy (tableAction r no .workerLost) command → S command)
    (h : handleLeaseExpired ctx seen i no r = .ok r') : Grows (FreshEvent ctx) S r r' := by
  unfold handleLeaseExpired at h
  split at h
  · rw [pure_eq_ok] at h
    exact h ▸ .refl r
  · split at h
    · simp only [bind_eq_ok] at h
      obtain ⟨r₁, h₁, h₂⟩ := h
      have hend : Grows (FreshEvent ctx) S r
          (r.endAttempt i .leaseExpired (some .workerLost) ctx.now) := .of_eq rfl rfl rfl rfl
      have hmax : r₁.core.maxAttempts = r.core.maxAttempts :=
        (interruptSeen_maxAttempts h₁).trans rfl
      rw [← tableAction_of_maxAttempts hmax] at hS
      exact (hend.trans (interruptSeen_grows h₁)).trans (applyPolicy_grows hS h₂)
    · rw [pure_eq_ok] at h
      exact h ▸ .refl r

theorem resume_grows (hS : r.run.status = .interrupted → r.isSnapshot → ∀ command, S command)
    (h : resume ctx r = .ok r') : Grows (FreshEvent ctx) S r r' := by
  simp only [resume, bind_eq_ok, require_eq_ok, orThrow_eq_ok] at h
  obtain ⟨-, hstatus, snapshot, hsnap, -, -, -, -, h⟩ := h
  have hsome : r.isSnapshot = true := by rw [RunRows.isSnapshot, hsnap]; rfl
  exact ((Grows.send (hS hstatus hsome _) _).trans (controlEvent_grows h)).of_write rfl rfl rfl rfl

theorem saveCheckpoint_grows {input : Checkpoint} (h : saveCheckpoint ctx input r = .ok r') :
    Grows K S r r' := by
  simp only [saveCheckpoint, bind_eq_ok] at h
  obtain ⟨-, -, -, -, -, -, -, -, h⟩ := h
  split at h
  · rw [pure_eq_ok] at h
    exact h ▸ .of_eq rfl rfl rfl rfl
  · rw [pure_eq_ok] at h
    exact h ▸ .of_eq rfl rfl rfl rfl

theorem heartbeat_grows {i : ℕ} (h : heartbeat ctx i r = .ok r') : Grows K S r r' := by
  simp only [heartbeat, bind_eq_ok, pure_eq_ok] at h
  obtain ⟨-, -, -, -, rfl⟩ := h
  exact .of_eq rfl rfl rfl rfl

theorem phase_grows {i : ℕ} {token : Option LeaseToken} {p : Phase} {detail : Option String}
    (h : phase ctx i token p detail r = .ok r') : Grows (FreshEvent ctx) S r r' := by
  obtain ⟨-, h⟩ := withLease_ok h
  refine (controlEvent_grows h).of_write ?_ ?_ ?_ ?_
  all_goals split <;> rfl

theorem environment_grows {i : ℕ} {token : Option LeaseToken} {imageId : String}
    {environmentId : ℕ} {resolved : Option String}
    (h : environment ctx i token imageId environmentId resolved r = .ok r') : Grows K S r r' := by
  obtain ⟨-, h⟩ := withLease_ok h
  simp only [bind_eq_ok, pure_eq_ok] at h
  obtain ⟨-, -, -, -, rfl⟩ := h
  exact .of_eq rfl rfl rfl rfl

theorem pause_grows {i : ℕ} {token : Option LeaseToken} {reason : String} {patch : Option String}
    (h : pause ctx i token reason patch r = .ok r') : Grows (FreshEvent ctx) S r r' := by
  obtain ⟨-, h⟩ := withLease_ok h
  refine (controlEvent_grows h).of_write ?_ ?_ ?_ ?_
  all_goals split <;> rfl

theorem claimAttempt_grows {input : ClaimInput} (h : claimAttempt ctx seen input r = .ok r') :
    Grows (FreshEvent ctx) S r r' := by
  simp only [claimAttempt, bind_eq_ok] at h
  obtain ⟨-, -, r₁, h₁, h₂⟩ := h
  have hfirst : Grows (FreshEvent ctx) S r r₁ := (transitionRun_grows h₁).of_write rfl rfl rfl rfl
  have hclock : Grows (FreshEvent ctx) S r₁ { r₁ with run := { r₁.run with
      activeStartedAt := some (seen.run.activeStartedAt.getD ctx.now) } } := .of_eq rfl rfl rfl rfl
  split at h₂
  · exact (hfirst.trans hclock).trans (transitionTask_grows h₂)
  · rw [pure_eq_ok] at h₂
    exact h₂ ▸ hfirst.trans hclock

theorem cancel_grows (h : cancel ctx r = .ok r') : Grows (FreshEvent ctx) S r r' := by
  unfold cancel at h
  split at h
  · rw [pure_eq_ok] at h
    exact h ▸ .refl r
  · simp only [bind_eq_ok] at h
    obtain ⟨-, -, h⟩ := h
    exact (controlEvent_grows h).of_write rfl rfl rfl rfl

/-- A settlement touches the ledger, and neither the log nor the outbox. -/
theorem settle_keeps {id : CallId} {used : Option ℕ} (h : settle ctx id used r = .ok r') :
    LogGrows K r r' ∧ r'.outbox = r.outbox := by
  unfold settle at h
  split at h
  · exact absurd h throw_ne_ok
  · split at h
    · simp only [bind_eq_ok, pure_eq_ok] at h
      obtain ⟨-, -, rfl⟩ := h
      exact ⟨.of_eq rfl rfl, rfl⟩
    · rw [pure_eq_ok] at h
      exact h ▸ ⟨.of_eq rfl rfl, rfl⟩

/-- A reservation enters one call, under an id that is free. -/
theorem reserve_keeps {attemptId : AttemptId} {token : Option LeaseToken} {id : CallId}
    {reserved : ℕ} (h : reserve ctx attemptId token id reserved r = .ok r') :
    LogGrows K r r' ∧ r'.outbox = r.outbox ∧ ctx.callTaken id = false ∧
      r'.budgetCalls = r.budgetCalls ++ [{ id := id, reserved := reserved }] := by
  simp only [reserve, bind_eq_ok, require_eq_ok, pure_eq_ok] at h
  obtain ⟨-, -, -, -, -, -, -, -, -, -, -, hfree, -, -, rfl⟩ := h
  exact ⟨.of_eq rfl rfl, rfl, hfree, rfl⟩

theorem ingest_grows {event : ReportedEvent} (h : ingest ctx event r = .ok r') :
    Grows (fun e => e.idempotencyKey = event.idempotencyKey ∧
      ctx.keyTaken e.idempotencyKey = false) S r r' := by
  simp only [ingest, bind_eq_ok, pure_eq_ok] at h
  obtain ⟨r₁, h₁, -, -, rfl⟩ := h
  exact recordEvent_grows (fun _ he hfree => ⟨he, hfree⟩) h₁

/-- **Every transaction of the lifecycle goes on from the log and the outbox
it found**, and but for a reservation leaves the ledger as it is. -/
theorem grows_of_lifecycle {w : Writer} (hw : w = .lifecycle ∨ ∃ no, w = .claimant no)
    (h : RowStep ctx r r' w) : Grows (FreshEvent ctx) (fun _ => True) r r' := by
  cases h with
  | claim h => exact claimAttempt_grows h
  | heartbeat h => exact heartbeat_grows h
  | @complete seen i no outcome hcap h =>
    cases outcome with
    | succeeded extras => exact completeSucceeded_grows h
    | failed code extras => exact completeFailed_grows (fun _ _ => trivial) h
  | leaseExpired hcap h => exact handleLeaseExpired_grows (fun _ _ => trivial) h
  | saveCheckpoint h => exact saveCheckpoint_grows h
  | phase h => exact phase_grows h
  | environment h => exact environment_grows h
  | pause h => exact pause_grows h
  | cancel h => exact cancel_grows h
  | resume h => exact resume_grows (fun _ _ _ => trivial) h
  | reserve => exact absurd hw (by simp)
  | settle => exact absurd hw (by simp)
  | ingest => exact absurd hw (by simp)
  | message => exact absurd hw (by simp)
  | markPublished => exact absurd hw (by simp)

theorem updateMessage_log {j : ℕ} {f : OutboxMessage → OutboxMessage}
    (h : updateMessage j f r = .ok r') : LogGrows K r r' := by
  simp only [updateMessage, bind_eq_ok, pure_eq_ok] at h
  obtain ⟨-, -, rfl⟩ := h
  exact .of_eq rfl rfl

theorem LogGrows.mono {L : TraceEvent → Prop} (h : LogGrows K r r') (hKL : ∀ e, K e → L e) :
    LogGrows L r r' := by
  obtain ⟨added, hevents, hnumbered, hlast, hK⟩ := h
  exact ⟨added, hevents, hnumbered, hlast, fun e he => hKL e (hK e he)⟩

/-- **Every committed transaction goes on from the log it found**, under
keys that were free. -/
theorem RowStep.freshLog {w : Writer} (h : RowStep ctx r r' w) :
    LogGrows (fun e => w.Keys ctx.runId e ∧ ctx.keyTaken e.idempotencyKey = false) r r' := by
  cases w with
  | claimant no => exact (grows_of_lifecycle (.inr ⟨no, rfl⟩) h).log
  | lifecycle => exact (grows_of_lifecycle (.inl rfl) h).log
  | spender id =>
    cases h with
    | reserve h => exact (reserve_keeps h).1
  | runtime key =>
    cases h with
    | ingest h => exact (ingest_grows (S := fun _ => True) h).log
  | publisher =>
    cases h with
    | markPublished h => exact updateMessage_log h
  | bookkeeping =>
    cases h with
    | settle h => exact (settle_keeps h).1
    | message hf h => exact updateMessage_log h

theorem RowStep.log {w : Writer} (h : RowStep ctx r r' w) : LogGrows (w.Keys ctx.runId) r r' :=
  h.freshLog.mono fun _ he => he.1

/-- A message that is not pending was there before, as it is. -/
def OutboxKept (r r' : RunRows) : Prop :=
  ∀ m ∈ r'.outbox, m.status = .pending ∨
    ∃ m₀ ∈ r.outbox, m₀.payload = m.payload ∧ m₀.status = m.status

theorem OutboxGrows.kept (h : OutboxGrows S r r') : OutboxKept r r' := by
  obtain ⟨sent, houtbox, hpending⟩ := h
  intro m hm
  rw [houtbox, List.mem_append] at hm
  rcases hm with hm | hm
  · exact .inr ⟨m, hm, rfl, rfl⟩
  · exact .inl (hpending m hm).1

/-- **Only the publisher marks a message as published.** -/
theorem RowStep.outbox {w : Writer} (h : RowStep ctx r r' w) (hw : w ≠ .publisher) :
    OutboxKept r r' := by
  cases w with
  | claimant no => exact (grows_of_lifecycle (.inr ⟨no, rfl⟩) h).outbox.kept
  | lifecycle => exact (grows_of_lifecycle (.inl rfl) h).outbox.kept
  | spender id =>
    cases h with
    | reserve h =>
      have hsame := (reserve_keeps (K := fun _ => True) h).2.1
      exact (OutboxGrows.of_eq (S := fun _ => True) hsame).kept
  | publisher => exact absurd rfl hw
  | runtime key =>
    cases h with
    | ingest h => exact (ingest_grows (S := fun _ => True) h).outbox.kept
  | bookkeeping =>
    cases h with
    | settle h =>
      have hsame := (settle_keeps (K := fun _ => True) h).2
      exact (OutboxGrows.of_eq (S := fun _ => True) hsame).kept
    | @message j f hf h =>
      simp only [updateMessage, bind_eq_ok, pure_eq_ok] at h
      obtain ⟨-, -, rfl⟩ := h
      intro m hm
      obtain ⟨k, hk⟩ := List.getElem?_of_mem hm
      change (r.outbox.modify j f)[k]? = some m at hk
      rw [List.getElem?_modify] at hk
      obtain ⟨m₀, hm₀, rfl⟩ := Option.map_eq_some_iff.mp hk
      have hmem := List.mem_of_getElem? hm₀
      by_cases hjk : j = k
      · rw [if_pos hjk]
        rcases (hf m₀).2 with hsame | hpending
        · exact .inr ⟨m₀, hmem, (hf m₀).1.symm, hsame.symm⟩
        · exact .inl hpending
      · rw [if_neg hjk]
        exact .inr ⟨m₀, hmem, rfl, rfl⟩

/-! ## The log is numbered without a gap -/

/-- **The events are numbered `1..m` in the order of the log.** -/
structure LogInv (r : RunRows) : Prop where
  numbered : r.traceEvents.map (·.runSequence) = List.range' 1 r.run.lastSequence

theorem LogInv.length (h : LogInv r) : r.traceEvents.length = r.run.lastSequence := by
  have := congrArg List.length h.numbered
  simpa using this

theorem LogInv.of_grows (h : LogInv r) (hs : LogGrows K r r') : LogInv r' := by
  obtain ⟨added, hevents, hnum, hlast, -⟩ := hs
  refine ⟨?_⟩
  rw [hevents, List.map_append, h.numbered, hnum, hlast, Nat.add_comm r.run.lastSequence 1,
    List.range'_append_1]

/-- The events of a new run: those of its creation, under keys of its own. -/
theorem Creates.log (h : Creates ctx r) :
    LogInv r ∧ (∀ e ∈ r.traceEvents, FreshEvent ctx e) ∧ ∀ m ∈ r.outbox, m.status = .pending := by
  cases h with
  | createTask h =>
    simp only [ControlPlane.createTask, bind_eq_ok] at h
    obtain ⟨input, -, fixture, -, baseCommit, -, -, -, r₁, h₁, command, -, h₂⟩ := h
    have hgrows : Grows (FreshEvent ctx) (fun _ => True) _ r :=
      ((transitionTask_grows h₁).trans (.send trivial _)).trans (transitionRun_grows h₂)
    obtain ⟨hlog, hsent, -⟩ := hgrows
    refine ⟨LogInv.of_grows ⟨rfl⟩ hlog, ?_, ?_⟩
    · obtain ⟨added, hevents, -, -, hkeys⟩ := hlog
      rw [hevents]
      exact hkeys
    · obtain ⟨sent, houtbox, hpending⟩ := hsent
      rw [houtbox]
      exact fun m hm => (hpending m hm).1
  | confirm h =>
    subst h
    refine ⟨⟨rfl⟩, fun e he => absurd he (by simp [snapshotRows]), fun m hm => ?_⟩
    rw [List.mem_singleton.mp hm]

/-- **In every reachable state the events of a run are numbered `1..m`, and
`lastSequence` is `m`.** -/
theorem logInv_of_run (es : List Event) {id : RunId} (hr : (machine.run es).db.runs[id]? = some r) :
    LogInv r :=
  rows_invariant (P := fun _ r => LogInv r) (fun hc => (Creates.log hc).1)
    (fun _ _ _ hlog h => hlog.of_grows h.log) es hr

end ControlPlane

end AgentReliability
