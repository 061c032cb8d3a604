import AgentReliability.ControlPlane.Fencing
/-!
# What the transactions leave untouched

Few transactions write the attempts of a run, and one writes the columns of
its environment. The steps the services share write neither: the policy,
the checked transitions and the events; nor do the ledger, the ingestion
and the outbox. What such columns hold is read off the transactions that
are left.
-/

namespace AgentReliability

namespace ControlPlane

variable {ctx : Context} {r r' seen : RunRows}

/-- The columns of the environment are the same. -/
structure SamePin (r r' : RunRows) : Prop where
  environmentId : r'.run.environmentId = r.run.environmentId
  imageId : r'.run.imageId = r.run.imageId

theorem SamePin.trans {a b c : RunRows} (h₁ : SamePin a b) (h₂ : SamePin b c) : SamePin a c :=
  ⟨h₂.environmentId.trans h₁.environmentId, h₂.imageId.trans h₁.imageId⟩

/-- **Neither the attempts are written nor the columns of the environment.** -/
structure Untouched (r r' : RunRows) : Prop where
  attempts : r'.attempts = r.attempts
  pin : SamePin r r'

theorem Untouched.refl (r : RunRows) : Untouched r r := ⟨rfl, rfl, rfl⟩

theorem Untouched.trans {a b c : RunRows} (h₁ : Untouched a b) (h₂ : Untouched b c) :
    Untouched a c :=
  ⟨h₂.attempts.trans h₁.attempts, h₁.pin.trans h₂.pin⟩

/-! ## The shared steps -/

theorem recordEvent_untouched {attemptId : Option AttemptId} {attemptSequence : ℕ}
    {type : TraceEventType} {payload : TracePayload} {key : ℕ → EventKey} {occurredAt : Time}
    (h : recordEvent ctx r attemptId attemptSequence type payload key occurredAt = .ok r') :
    Untouched r r' := by
  simp only [recordEvent, bind_eq_ok, pure_eq_ok] at h
  obtain ⟨-, -, rfl⟩ := h
  exact ⟨rfl, rfl, rfl⟩

theorem transitionRun_untouched {source target : RunStatus}
    (h : transitionRun ctx source target r = .ok r') : Untouched r r' := by
  simp only [transitionRun, bind_eq_ok] at h
  obtain ⟨-, -, -, -, hevent⟩ := h
  have hstatus : Untouched r (r.setStatus target) := ⟨rfl, rfl, rfl⟩
  exact hstatus.trans (recordEvent_untouched hevent)

theorem transitionTask_untouched {source target : TaskStatus}
    (h : transitionTask ctx source target r = .ok r') : Untouched r r' := by
  simp only [transitionTask, bind_eq_ok, pure_eq_ok] at h
  obtain ⟨-, -, -, -, rfl⟩ := h
  exact ⟨rfl, rfl, rfl⟩

theorem chargeActive_untouched (ctx : Context) (r : RunRows) :
    Untouched r (chargeActive ctx r) := by
  unfold chargeActive
  split <;> exact ⟨rfl, rfl, rfl⟩

theorem chargeBackoff_untouched (backoffMs : ℕ) (r : RunRows) :
    Untouched r (chargeBackoff backoffMs r) := by
  unfold chargeBackoff
  split <;> exact ⟨rfl, rfl, rfl⟩

theorem redispatch_untouched {i no : ℕ} {decision : PolicyDecisionResult}
    (h : redispatch ctx i no decision r = .ok r') : Untouched r r' := by
  simp only [redispatch, bind_eq_ok] at h
  obtain ⟨r₁, h₁, command, -, r₂, h₂, h₃⟩ := h
  have hsend : Untouched r₁ (r₁.send command (ctx.now + decision.backoffMs)) := ⟨rfl, rfl, rfl⟩
  exact ((transitionRun_untouched h₁).trans (hsend.trans (recordEvent_untouched h₂))).trans
    (transitionRun_untouched h₃)

theorem retry_untouched {i no : ℕ} {decision : PolicyDecisionResult}
    (h : retry ctx i no decision r = .ok r') : Untouched r r' := by
  unfold retry at h
  simp only at h
  have hcharged := chargeBackoff_untouched decision.backoffMs r
  split at h
  · rw [pure_eq_ok] at h
    subst h
    exact hcharged.trans ⟨rfl, rfl, rfl⟩
  · exact hcharged.trans (redispatch_untouched h)

theorem abortRun_untouched (h : abortRun ctx r = .ok r') : Untouched r r' := by
  simp only [abortRun, bind_eq_ok] at h
  obtain ⟨r₁, h₁, h₂⟩ := h
  have hstopped : Untouched r ((r.setPhase "FAILED").stopClock) := ⟨rfl, rfl, rfl⟩
  have hfirst : Untouched r r₁ := hstopped.trans (transitionRun_untouched h₁)
  split at h₂
  · exact hfirst.trans (transitionTask_untouched h₂)
  · rw [← pure_eq_ok.mp h₂]
    exact hfirst

/-- **The policy writes neither.** -/
theorem applyPolicy_untouched {i no : ℕ} {code : FailureCode}
    (h : applyPolicy ctx i no code r = .ok r') : Untouched r r' := by
  have hcharged := chargeActive_untouched ctx r
  unfold applyPolicy at h
  simp only at h
  generalize chargeActive ctx r = charged at *
  refine hcharged.trans ?_
  have hdecided : ∀ d : PolicyDecision, Untouched charged (charged.recordDecision d) :=
    fun _ => ⟨rfl, rfl, rfl⟩
  split at h
  · rw [pure_eq_ok] at h
    subst h
    exact ⟨rfl, rfl, rfl⟩
  · split at h
    · exact (hdecided _).trans (retry_untouched h)
    · exact (hdecided _).trans (retry_untouched h)
    · exact (hdecided _).trans (abortRun_untouched h)
    · rw [pure_eq_ok] at h
      subst h
      exact ⟨rfl, rfl, rfl⟩

theorem persistExtras_untouched (ctx : Context) (seen r : RunRows) (i : ℕ)
    (extras : CompleteExtras) : Untouched r (persistExtras ctx seen i extras r) := by
  have hclock : Untouched r (persistClock ctx seen r) := by
    unfold persistClock
    split <;> exact ⟨rfl, rfl, rfl⟩
  have husage : ∀ x : RunRows, Untouched x (persistUsage seen extras x) := by
    intro x
    unfold persistUsage
    cases extras.usedTokens <;> split <;> exact ⟨rfl, rfl, rfl⟩
  have hreports : Untouched (persistUsage seen extras (persistClock ctx seen r))
      (persistExtras ctx seen i extras r) := ⟨rfl, rfl, rfl⟩
  exact (hclock.trans (husage _)).trans hreports

theorem interruptSeen_untouched (h : interruptSeen ctx seen r = .ok r') : Untouched r r' := by
  unfold interruptSeen at h
  split at h
  · exact transitionRun_untouched h
  · rw [← pure_eq_ok.mp h]
    exact .refl r

/-- A fenced operation runs on the rows it was fenced on. -/
theorem withLease_running {i : ℕ} {token : Option LeaseToken} {checkTime : Bool}
    {operation : RunRows → Except ServiceError RunRows}
    (h : withLease ctx i token checkTime operation r = .ok r') :
    ∃ a, r.attempts[i]? = some a ∧ a.status = .running ∧ operation r = .ok r' := by
  simp only [withLease, lease, bind_eq_ok, require_eq_ok, orThrow_eq_ok] at h
  obtain ⟨a, ha, -, ⟨-, ⟨-, -, hrun, -⟩, -⟩, hop⟩ := h
  exact ⟨a, ha, hrun, hop⟩

/-! ## The transactions that write neither -/

theorem saveCheckpoint_untouched {input : Checkpoint}
    (h : ControlPlane.saveCheckpoint ctx input r = .ok r') : Untouched r r' := by
  simp only [ControlPlane.saveCheckpoint, bind_eq_ok] at h
  obtain ⟨-, -, -, -, a, -, -, -, h⟩ := h
  split at h <;> rw [← pure_eq_ok.mp h] <;> exact ⟨rfl, rfl, rfl⟩

theorem phase_untouched {i : ℕ} {token : Option LeaseToken} {p : Phase} {detail : Option String}
    (h : ControlPlane.phase ctx i token p detail r = .ok r') : Untouched r r' := by
  unfold ControlPlane.phase at h
  obtain ⟨a, -, -, hop⟩ := withLease_running h
  refine .trans ?_ (recordEvent_untouched hop)
  split <;> exact ⟨rfl, rfl, rfl⟩

theorem resume_untouched (h : ControlPlane.resume ctx r = .ok r') : Untouched r r' := by
  simp only [ControlPlane.resume, bind_eq_ok] at h
  obtain ⟨-, -, snapshot, -, -, -, -, -, hevent⟩ := h
  refine .trans ?_ (recordEvent_untouched hevent)
  exact ⟨rfl, rfl, rfl⟩

theorem reserve_untouched {attemptId : AttemptId} {token : Option LeaseToken} {call : CallId}
    {reserved : ℕ} (h : ControlPlane.reserve ctx attemptId token call reserved r = .ok r') :
    Untouched r r' := by
  simp only [ControlPlane.reserve, bind_eq_ok, pure_eq_ok] at h
  obtain ⟨-, -, a, -, -, -, -, -, -, -, -, -, -, -, rfl⟩ := h
  exact ⟨rfl, rfl, rfl⟩

theorem settle_untouched {call : CallId} {used : Option ℕ}
    (h : ControlPlane.settle ctx call used r = .ok r') : Untouched r r' := by
  unfold ControlPlane.settle at h
  split at h
  · exact absurd h (by simp [throw, throwThe, MonadExceptOf.throw])
  · split at h
    · simp only [bind_eq_ok, pure_eq_ok] at h
      obtain ⟨-, -, rfl⟩ := h
      exact ⟨rfl, rfl, rfl⟩
    · rw [← pure_eq_ok.mp h]
      exact ⟨rfl, rfl, rfl⟩

theorem ingest_untouched {event : ReportedEvent} (h : ControlPlane.ingest ctx event r = .ok r') :
    Untouched r r' := by
  simp only [ControlPlane.ingest, bind_eq_ok, pure_eq_ok] at h
  obtain ⟨r₁, hevent, -, -, rfl⟩ := h
  exact (recordEvent_untouched hevent).trans ⟨rfl, rfl, rfl⟩

theorem updateMessage_untouched {j : ℕ} {f : OutboxMessage → OutboxMessage}
    (h : updateMessage j f r = .ok r') : Untouched r r' := by
  simp only [updateMessage, bind_eq_ok, pure_eq_ok] at h
  obtain ⟨-, -, rfl⟩ := h
  exact ⟨rfl, rfl, rfl⟩

/-! ## The transactions that write the attempts -/

theorem complete_samePin {i no : ℕ} {outcome : Outcome}
    (h : completeAttempt ctx seen i no outcome r = .ok r') : SamePin r r' := by
  have hended : ∀ status code, SamePin r (r.endAttempt i status code ctx.now) :=
    fun _ _ => ⟨rfl, rfl⟩
  cases outcome with
  | succeeded extras =>
    simp only [completeAttempt, completeSucceeded, bind_eq_ok] at h
    obtain ⟨-, -, -, -, -, -, r₁, h₁, r₂, h₂, r₃, h₃, h₄⟩ := h
    have hruns : Untouched r₁ r₃ :=
      (transitionRun_untouched h₂).trans (transitionTask_untouched h₃)
    have hlast : Untouched r₃ r' := by
      refine .trans ?_ (recordEvent_untouched h₄)
      exact ⟨rfl, rfl, rfl⟩
    exact (hended _ _).trans (((persistExtras_untouched ctx seen _ i extras).trans
      (transitionRun_untouched h₁)).trans (hruns.trans hlast)).pin
  | failed code extras =>
    simp only [completeAttempt, completeFailed, bind_eq_ok] at h
    obtain ⟨-, -, -, -, r₁, h₁, h₂⟩ := h
    exact (hended _ _).trans (((persistExtras_untouched ctx seen _ i extras).trans
      (interruptSeen_untouched h₁)).trans (applyPolicy_untouched h₂)).pin

theorem leaseExpired_samePin {i no : ℕ} (h : handleLeaseExpired ctx seen i no r = .ok r') :
    SamePin r r' := by
  unfold handleLeaseExpired at h
  split at h
  · obtain rfl := pure_eq_ok.mp h
    exact ⟨rfl, rfl⟩
  · split at h
    · simp only [bind_eq_ok] at h
      obtain ⟨r₁, h₁, h₂⟩ := h
      have hended : SamePin r (r.endAttempt i .leaseExpired (some .workerLost) ctx.now) :=
        ⟨rfl, rfl⟩
      exact hended.trans ((interruptSeen_untouched h₁).trans (applyPolicy_untouched h₂)).pin
    · obtain rfl := pure_eq_ok.mp h
      exact ⟨rfl, rfl⟩

theorem claim_samePin {input : ClaimInput} (h : claimAttempt ctx seen input r = .ok r') :
    SamePin r r' := by
  simp only [claimAttempt, bind_eq_ok] at h
  obtain ⟨-, -, r₁, h₁, h₂⟩ := h
  have hfirst : SamePin r r₁ := by
    refine .trans ?_ (transitionRun_untouched h₁).pin
    exact ⟨rfl, rfl⟩
  refine hfirst.trans ?_
  split at h₂
  · refine .trans ?_ (transitionTask_untouched h₂).pin
    exact ⟨rfl, rfl⟩
  · rw [← pure_eq_ok.mp h₂]
    exact ⟨rfl, rfl⟩

theorem heartbeat_samePin {i : ℕ} (h : ControlPlane.heartbeat ctx i r = .ok r') :
    SamePin r r' := by
  simp only [ControlPlane.heartbeat, bind_eq_ok, pure_eq_ok] at h
  obtain ⟨-, -, -, -, rfl⟩ := h
  exact ⟨rfl, rfl⟩

theorem pause_samePin {i : ℕ} {token : Option LeaseToken} {reason : String} {patch : Option String}
    (h : ControlPlane.pause ctx i token reason patch r = .ok r') : SamePin r r' := by
  unfold ControlPlane.pause at h
  obtain ⟨a, -, -, hop⟩ := withLease_running h
  refine .trans ?_ (recordEvent_untouched hop).pin
  split <;> exact ⟨rfl, rfl⟩

theorem cancel_samePin (h : ControlPlane.cancel ctx r = .ok r') : SamePin r r' := by
  unfold ControlPlane.cancel at h
  split at h
  · obtain rfl := pure_eq_ok.mp h
    exact ⟨rfl, rfl⟩
  · simp only [bind_eq_ok] at h
    obtain ⟨-, -, hevent⟩ := h
    refine .trans ?_ (recordEvent_untouched hevent).pin
    exact ⟨rfl, rfl⟩

end ControlPlane

end AgentReliability
