import AgentReliability.ControlPlane.Clock
import AgentReliability.ControlPlane.LeaseMonitor
import AgentReliability.ControlPlane.Leases
import AgentReliability.ControlPlane.RunLife
import AgentReliability.ControlPlane.Writes
/-!
# A run can always come to rest

No run is stuck. A run that waits can be claimed, and a run whose worker
has fallen silent can be recovered: the monitor marks its attempt, and the
policy sends the next command, gives up or asks for a person. What could
refuse it is an event number that is taken or a fixture that is not
registered any more. Each of these steps takes one of the moves the run has
left, so few of them lead to rest.
-/

namespace AgentReliability

namespace ControlPlane

variable {ctx : Context} {r r' : RunRows}

/-! ## Rows that can be written -/

/-- **The event numbers the run has left are free.** -/
structure Writable (ctx : Context) (r : RunRows) : Prop where
  log : LogInv r
  free : ∀ n, r.run.lastSequence < n → ctx.keyTaken (.platform ctx.runId n) = false
  own : ∀ n, r.run.lastSequence < n →
    ∀ e ∈ r.traceEvents, e.idempotencyKey ≠ .platform ctx.runId n

/-- Only the events and their number matter. -/
theorem Writable.of_eq (h : Writable ctx r) (hevents : r'.traceEvents = r.traceEvents)
    (hlast : r'.run.lastSequence = r.run.lastSequence) : Writable ctx r' where
  log := ⟨by rw [hevents, hlast]; exact h.log.numbered⟩
  free := by rw [hlast]; exact h.free
  own := by rw [hevents, hlast]; exact h.own

/-- **An event is recorded, and the numbers after it stay free.** -/
theorem Writable.record (h : Writable ctx r) (type : TraceEventType) (payload : TracePayload)
    (attemptId : Option AttemptId) :
    ∃ r', appendSyntheticEvent ctx type payload attemptId r = .ok r' ∧ Writable ctx r' ∧
      r'.run.status = r.run.status ∧ r'.task = r.task ∧ r'.outbox = r.outbox := by
  have hnext : r.run.lastSequence < r.run.lastSequence + 1 := Nat.lt_succ_self _
  obtain ⟨r', hr'⟩ : ∃ r', appendSyntheticEvent ctx type payload attemptId r = .ok r' :=
    recordEvent_ok h.log (h.free _ hnext) (h.own _ hnext)
  refine ⟨r', hr', ?_⟩
  have hlog := h.log.of_grows (appendSyntheticEvent_grows (S := fun _ => True) hr').log
  simp only [appendSyntheticEvent, recordEvent, bind_eq_ok, pure_eq_ok] at hr'
  obtain ⟨-, -, rfl⟩ := hr'
  refine ⟨⟨hlog, fun n hn => ?_, fun n hn e he => ?_⟩, rfl, rfl, rfl⟩
  · have hn : r.run.lastSequence + 1 < n := hn
    exact h.free n (by omega)
  · have hn : r.run.lastSequence + 1 < n := hn
    rcases List.mem_append.mp he with he | he
    · exact h.own n (by omega) e he
    · rw [List.mem_singleton.mp he]
      intro hkey
      have := (EventKey.platform.inj hkey).2
      omega

/-- A transition of the table is made. -/
theorem Writable.transition (h : Writable ctx r) {source : RunStatus} (target : RunStatus)
    (htable : target ∈ source.transitions) (hstatus : r.run.status = source) :
    ∃ r', transitionRun ctx source target r = .ok r' ∧ Writable ctx r' ∧
      r'.run.status = target ∧ r'.task = r.task ∧ r'.outbox = r.outbox := by
  have hmoved : Writable ctx { r with run := { r.run with status := target } } := h.of_eq rfl rfl
  obtain ⟨r', hr', hw, hs, ht, ho⟩ := hmoved.record .stateTransition
    (.stateTransition "run" source.name target.name) none
  refine ⟨r', ?_, hw, hs, ht, ho⟩
  simp only [transitionRun, bind_eq_ok, require_eq_ok]
  exact ⟨(), htable, (), hstatus, hr'⟩

/-! ## The policy does not refuse -/

/-- What the command of a retry needs: a fixture run has its fixture, and
its first command passes the schema. -/
structure Repeatable (ctx : Context) (r : RunRows) : Prop where
  registered : r.task.snapshot = none →
    (ctx.fixtures.find (r.task.fixtureId.getD "fake")).isSome
  valid : ∀ m ∈ r.outbox.head?, m.payload.Valid

theorem Repeatable.of_eq (h : Repeatable ctx r) (htask : r'.task.snapshot = r.task.snapshot)
    (hfixture : r'.task.fixtureId = r.task.fixtureId) (houtbox : r'.outbox = r.outbox) :
    Repeatable ctx r' where
  registered := by rw [htask, hfixture]; exact h.registered
  valid := by rw [houtbox]; exact h.valid

theorem Repeatable.retryCommand_ok (h : Repeatable ctx r) (action : PolicyAction) (no : ℕ)
    (checkpoint : Option CheckpointId) :
    ∃ command, retryCommand ctx r action no checkpoint = .ok command := by
  unfold retryCommand
  cases hsnapshot : r.task.snapshot with
  | some snapshot => exact ⟨_, rfl⟩
  | none =>
    obtain ⟨fixture, hfixture⟩ := Option.isSome_iff_exists.mp (h.registered hsnapshot)
    simp only [buildRunCommand, hfixture, orThrow]
    cases hhead : r.outbox.head? with
    | none => exact ⟨_, rfl⟩
    | some m =>
      have hvalid : m.payload.Valid := h.valid m (by rw [hhead]; rfl)
      exact ⟨_, by simp [require_of _ hvalid]; rfl⟩

theorem redispatch_ok {i no : ℕ} {decision : PolicyDecisionResult} (hw : Writable ctx r)
    (hrepeat : Repeatable ctx r) (hstatus : r.run.status = .interrupted) :
    ∃ r', redispatch ctx i no decision r = .ok r' := by
  obtain ⟨r₁, h₁, hw₁, hs₁, ht₁, ho₁⟩ := hw.transition .recovering (by decide) hstatus
  have hrepeat₁ : Repeatable ctx r₁ := hrepeat.of_eq (by rw [ht₁]) (by rw [ht₁]) ho₁
  obtain ⟨command, hcommand⟩ := hrepeat₁.retryCommand_ok decision.action (no + 1)
    (if decision.action = .resume then r.latestCheckpoint else none)
  have hsent : Writable ctx (r₁.send command (ctx.now + decision.backoffMs)) := hw₁.of_eq rfl rfl
  obtain ⟨r₂, h₂, hw₂, hs₂, -⟩ := hsent.record .recoveryAction
    (.recoveryAction decision.action
      (if decision.action = .resume then r.latestCheckpoint else none) (no + 1))
    (some ⟨ctx.runId, i⟩)
  obtain ⟨r₃, h₃, -⟩ := hw₂.transition .dispatched (by decide) (hs₂.trans hs₁)
  refine ⟨r₃, ?_⟩
  simp only [redispatch, bind_eq_ok]
  exact ⟨r₁, h₁, command, hcommand, r₂, h₂, h₃⟩

theorem retry_ok {i no : ℕ} {decision : PolicyDecisionResult} (hw : Writable ctx r)
    (hrepeat : Repeatable ctx r) (hstatus : r.run.status = .interrupted) :
    ∃ r', retry ctx i no decision r = .ok r' := by
  have hcharged : Writable ctx (chargeBackoff decision.backoffMs r) ∧
      Repeatable ctx (chargeBackoff decision.backoffMs r) ∧
      (chargeBackoff decision.backoffMs r).run.status = .interrupted := by
    unfold chargeBackoff
    split
    · exact ⟨hw.of_eq rfl rfl, hrepeat.of_eq rfl rfl rfl, hstatus⟩
    · exact ⟨hw, hrepeat, hstatus⟩
  unfold retry
  simp only
  split
  · exact ⟨_, rfl⟩
  · exact redispatch_ok hcharged.1 hcharged.2.1 hcharged.2.2

theorem abortRun_ok (hw : Writable ctx r) (hstatus : r.run.status = .interrupted) :
    ∃ r', abortRun ctx r = .ok r' := by
  have hstopped : Writable ctx (r.setPhase "FAILED").stopClock := hw.of_eq rfl rfl
  obtain ⟨r₁, h₁, -⟩ := hstopped.transition .failed (by decide) hstatus
  by_cases htask : r₁.task.status = .running
  · refine ⟨{ r₁ with task := { r₁.task with status := .failed } }, ?_⟩
    simp only [abortRun, bind_eq_ok]
    refine ⟨r₁, h₁, ?_⟩
    rw [if_pos htask]
    simp only [transitionTask, bind_eq_ok, require_eq_ok, pure_eq_ok]
    exact ⟨(), by decide, (), htask, trivial⟩
  · refine ⟨r₁, ?_⟩
    simp only [abortRun, bind_eq_ok]
    exact ⟨r₁, h₁, by rw [if_neg htask]; rfl⟩

/-- **The policy decides on every interrupted run.** -/
theorem applyPolicy_ok (i no : ℕ) (code : FailureCode) (hw : Writable ctx r)
    (hrepeat : Repeatable ctx r) (hstatus : r.run.status = .interrupted) :
    ∃ r', applyPolicy ctx i no code r = .ok r' := by
  have hcharged : Writable ctx (chargeActive ctx r) ∧ Repeatable ctx (chargeActive ctx r) ∧
      (chargeActive ctx r).run.status = .interrupted := by
    unfold chargeActive
    split
    · exact ⟨hw.of_eq rfl rfl, hrepeat.of_eq rfl rfl rfl, hstatus⟩
    · exact ⟨hw, hrepeat, hstatus⟩
  unfold applyPolicy
  simp only
  generalize chargeActive ctx r = charged at hcharged
  obtain ⟨hw, hrepeat, hstatus⟩ := hcharged
  split
  · exact ⟨_, rfl⟩
  · split
    · exact retry_ok (hw.of_eq rfl rfl) (hrepeat.of_eq rfl rfl rfl) hstatus
    · exact retry_ok (hw.of_eq rfl rfl) (hrepeat.of_eq rfl rfl rfl) hstatus
    · exact abortRun_ok (hw.of_eq rfl rfl) hstatus
    · exact ⟨_, rfl⟩

/-- **A lost attempt is recovered.** -/
theorem handleLeaseExpired_ok {i : ℕ} (no : ℕ) {a : Attempt} (hw : Writable ctx r)
    (hrepeat : Repeatable ctx r) (hstatus : r.run.status = .running)
    (ha : r.attempts[i]? = some a) (hlost : leaseLost ctx a = true) :
    ∃ r', handleLeaseExpired ctx r i no r = .ok r' := by
  have hended : Writable ctx (r.endAttempt i .leaseExpired (some .workerLost) ctx.now) :=
    hw.of_eq rfl rfl
  obtain ⟨r₁, h₁, hw₁, hs₁, ht₁, ho₁⟩ := hended.transition .interrupted (by decide)
    hstatus
  have hrepeat₁ : Repeatable ctx r₁ := hrepeat.of_eq (by rw [ht₁]; rfl) (by rw [ht₁]; rfl) ho₁
  obtain ⟨r₂, h₂⟩ := applyPolicy_ok i no .workerLost hw₁ hrepeat₁ hs₁
  refine ⟨r₂, ?_⟩
  unfold handleLeaseExpired
  rw [ha]
  simp only [hlost, if_true, bind_eq_ok]
  refine ⟨r₁, ?_, h₂⟩
  unfold interruptSeen
  rw [if_pos (by rw [hstatus]; decide), hstatus]
  exact h₁

/-! ## In a reachable state -/

/-- Without a foreign key of the control plane's form, the numbers a run has
left are free. -/
theorem writable_of_run {es : List Event} (hes : OwnKeys es) (env : Env) {id : RunId} {r : RunRows}
    (hr : (machine.run es).db.runs[id]? = some r) :
    Writable ((machine.run es).db.context env id) r := by
  have hlog := logInv_of_run es hr
  -- An event under the key of a number of this run is one of its own, numbered so.
  have htaken : ∀ (x : RunRows) (e : TraceEvent) (n : ℕ), x ∈ (machine.run es).db.runs →
      e ∈ x.traceEvents → e.idempotencyKey = .platform id n → n ≤ r.run.lastSequence := by
    intro x e n hx he hkey
    obtain ⟨j, hj⟩ := List.getElem?_of_mem hx
    obtain ⟨rfl, hseq⟩ := keyInv_of_ownKeys hes hj e he _ _ hkey
    obtain rfl := Option.some.inj (hj.symm.trans hr)
    have hmem : e.runSequence ∈ x.traceEvents.map (·.runSequence) := List.mem_map_of_mem he
    rw [hlog.numbered] at hmem
    have := (List.mem_range'_1.mp hmem).2
    omega
  refine ⟨hlog, fun n hn => ?_, fun n hn e he hkey => ?_⟩
  · simp only [Database.context, List.any_eq_false]
    intro x hx hany
    obtain ⟨e, he, hkey⟩ := List.any_eq_true.mp hany
    rw [decide_eq_true_eq] at hkey
    have := htaken x e n hx he hkey
    omega
  · have := htaken r e n (List.mem_of_getElem? hr) he hkey
    omega

/-- A budget is positive, whatever the request says of it. -/
theorem budgetOr_pos (given : Option ℕ) {default : ℕ} (h : 0 < default) :
    0 < budgetOr given default := by
  unfold budgetOr
  cases given with
  | none => exact h
  | some n =>
    by_cases hn : 0 < n
    · simp [Option.filter, hn]
    · simpa [Option.filter, hn] using h

/-- The first command of a run passes its schema. -/
def FirstValid (r : RunRows) : Prop := ∀ m ∈ r.outbox.head?, m.payload.Valid

theorem Creates.firstValid (h : Creates ctx r) : r.outbox ≠ [] ∧ FirstValid r := by
  cases h with
  | createTask h =>
    simp only [ControlPlane.createTask, bind_eq_ok, buildRunCommand, orThrow_eq_ok, pure_eq_ok] at h
    obtain ⟨input, -, fixture, -, baseCommit, -, -, -, r₁, h₁, command, ⟨_, -, rfl⟩, h₂⟩ := h
    simp only [transitionTask, bind_eq_ok, pure_eq_ok] at h₁
    obtain ⟨-, -, -, -, rfl⟩ := h₁
    simp only [transitionRun, appendSyntheticEvent, recordEvent, bind_eq_ok, pure_eq_ok] at h₂
    obtain ⟨-, -, -, -, -, -, rfl⟩ := h₂
    refine ⟨List.cons_ne_nil _ _, fun m hm => ?_⟩
    obtain rfl := Option.some.inj hm
    exact ⟨Nat.one_pos, budgetOr_pos _ (by omega), budgetOr_pos _ (by omega),
      budgetOr_pos _ (by omega)⟩
  | confirm h =>
    subst h
    refine ⟨List.cons_ne_nil _ _, fun m hm => ?_⟩
    obtain rfl := Option.some.inj hm
    exact commandFromSnapshot_valid _ _ _ Nat.one_pos _ _ _

theorem firstValid_of_run (es : List Event) {id : RunId}
    (hr : (machine.run es).db.runs[id]? = some r) : FirstValid r := by
  have hP : r.outbox ≠ [] ∧ FirstValid r := by
    refine writes_invariant (P := fun _ r => r.outbox ≠ [] ∧ FirstValid r)
      (fun hcreates => hcreates.firstValid) ?_ es hr
    rintro db env id r r' ⟨hne, hvalid⟩ hw
    have hsame : r'.outbox = r.outbox → r'.outbox ≠ [] ∧ FirstValid r' := by
      intro houtbox
      unfold FirstValid
      rw [houtbox]
      exact ⟨hne, hvalid⟩
    have hevent : ∀ {x : RunRows} {attemptId : Option AttemptId} {n : ℕ} {type : TraceEventType}
        {payload : TracePayload} {key : ℕ → EventKey} {time : Time}, x.outbox = r.outbox →
        recordEvent (db.context env id) x attemptId n type payload key time = .ok r' →
        r'.outbox = r.outbox := by
      intro x attemptId n type payload key time hx h
      simp only [recordEvent, bind_eq_ok, pure_eq_ok] at h
      obtain ⟨-, -, rfl⟩ := h
      exact hx
    obtain ⟨first, rest, hfirst⟩ := List.exists_cons_of_ne_nil hne
    have hpayload : first.payload.Valid := hvalid first (by rw [hfirst]; rfl)
    cases hw with
    | move _ _ h => exact hsame (hevent (by rfl) h)
    | phase h => exact hsame (hevent (by rfl) h)
    | event _ h => exact hsame (hevent rfl h)
    | send =>
      refine ⟨by simp [RunRows.send], fun m hm => ?_⟩
      simp only [RunRows.send, hfirst, List.cons_append, List.head?_cons, Option.mem_def,
        Option.some.injEq] at hm
      exact hm ▸ hpayload
    | @message j f hf =>
      rw [FirstValid, hfirst]
      cases j with
      | zero =>
        refine ⟨by simp [List.modify], fun m hm => ?_⟩
        obtain rfl : f first = m := by simpa [List.modify] using hm
        rw [hf]
        exact hpayload
      | succ j =>
        refine ⟨by simp [List.modify], fun m hm => ?_⟩
        obtain rfl : first = m := by simpa [List.modify] using hm
        exact hpayload
    | _ => exact hsame rfl
  exact hP.2

/-! ## The way to rest -/

theorem claimAttempt_running {seen : RunRows} {input : ClaimInput}
    (h : claimAttempt ctx seen input r = .ok r') : r'.run.status = .running := by
  simp only [claimAttempt, bind_eq_ok] at h
  obtain ⟨-, -, r₁, h₁, h₂⟩ := h
  have hstatus : r₁.run.status = .running := congrArg RunClock.status (transitionRun_clock h₁)
  split at h₂
  · exact (congrArg RunClock.status (transitionTask_clock h₂)).trans hstatus
  · rw [← pure_eq_ok.mp h₂]
    exact hstatus

/-- What a worker or the lease monitor asks for of a run, at a time. -/
inductive Sweeps (env : Env) (id : RunId) (now : Time) : Event → Prop
  | claim {attemptNo : ℕ} {workerId : String} {runAt attemptAt : ℕ} :
      Sweeps env id now
        (.request { env with now } (.claim ⟨id, attemptNo, workerId⟩ runAt attemptAt))
  | leaseExpired {i : ℕ} {readAt : ReadAt} :
      Sweeps env id now (.request { env with now } (.leaseExpired ⟨id, i⟩ readAt))

theorem Sweeps.ownKeys {env : Env} {id : RunId} {now : Time} {es : List Event} {e : Event}
    (hes : OwnKeys es) (h : Sweeps env id now e) : OwnKeys (es ++ [e]) := by
  intro x hx j n
  rcases List.mem_append.mp hx with hx | hx
  · exact hes x hx j n
  · rw [List.mem_singleton.mp hx]
    cases h <;> simp [Event.writer, Request.writer]

section

variable {es : List Event} {id : RunId}

/-- A run that waits is claimed. -/
theorem claim_moves (hes : OwnKeys es) (hr : (machine.run es).db.runs[id]? = some r)
    (hstatus : r.run.status = .dispatched) (env : Env) (now : Time) :
    ∃ e, Sweeps env id now e ∧ movesStatus id (machine.run es) e = true := by
  have hroom := (dispatchInv_of_run es hr).dispatched hstatus
  have hmax : r.attempts.length + 1 ≤ r.run.maxAttempts := by
    have hlength : r.core.attempts.length = r.attempts.length := by simp [RunRows.core]
    have hle : r.core.commands.length ≤ r.run.maxAttempts := hroom.2
    omega
  have hgranted := claim_granted hes hr hstatus hmax { env with now } "" 0
  refine ⟨.request { env with now } (.claim ⟨id, r.attempts.length + 1, ""⟩
    (machine.run es).past.length 0), .claim, ?_⟩
  -- A granted claim is one that was committed.
  cases hc : (Event.request { env with now } (.claim ⟨id, r.attempts.length + 1, ""⟩
      (machine.run es).past.length 0)).commit? (machine.run es) with
  | none =>
    have hsame := step_of_not_commit hc
    rw [hsame] at hgranted
    exact absurd hgranted (by simp)
  | some db =>
    obtain ⟨seen, x, r', hx, hclaim, hruns⟩ := claim_commit hc
    have hlt := (List.getElem?_eq_some_iff.mp hr).1
    have hrun' : (step (machine.run es) (.request { env with now }
        (.claim ⟨id, r.attempts.length + 1, ""⟩ (machine.run es).past.length 0))).db.runs[id]? =
          some r' := by
      unfold step
      rw [hc]
      show db.runs[id]? = _
      rw [hruns]
      exact List.getElem?_set_self hlt
    simp [movesStatus, State.runStatus?, hrun', hr, claimAttempt_running hclaim, hstatus]

/-- An attempt that executes is marked once its lease has run out. -/
theorem leaseExpired_moves (hes : OwnKeys es) (hr : (machine.run es).db.runs[id]? = some r)
    (hstatus : r.run.status = .running) (env : Env)
    (hfixture : r.task.snapshot = none →
      (env.fixtures.find (r.task.fixtureId.getD "fake")).isSome) (start : Time) :
    ∃ now e, start ≤ now ∧ Sweeps env id now e ∧ movesStatus id (machine.run es) e = true := by
  have hs := sound_of_reachable (machine.reachable_run es)
  obtain ⟨hinv, hfrozen⟩ := hs.rows hr
  -- The executing attempt, and its lease.
  obtain ⟨i, no, hi⟩ := hinv.running hstatus
  obtain ⟨a, ha, hstate⟩ : ∃ a, r.attempts[i]? = some a ∧ a.state = ⟨no, .running⟩ := by
    unfold RunCore.Executing at hi
    rw [RunRows.core_attempts_getElem?] at hi
    exact Option.map_eq_some_iff.mp hi
  have hexec : a.status = .running := congrArg AttemptState.status hstate
  have hleased := leased_of_run es ⟨id, i⟩
  have hat : (machine.run es).db.attempt? ⟨id, i⟩ = some a := attempt?_eq hr ha
  obtain ⟨t, ht⟩ : ∃ t, a.leaseExpiresAt = some t := by
    have hgiven := hleased.given (by rw [hat]; rfl)
    have hshown := hleased.shown
    rw [hat] at hshown
    exact ⟨_, hshown.trans (List.getLast?_eq_getLast_of_ne_nil hgiven)⟩
  -- The monitor comes after it has run out.
  obtain ⟨now, hfrom, hlate⟩ : ∃ now : Time, start ≤ now ∧ t ≤ now := by
    rcases Int.le_total start t with h | h
    · exact ⟨t, h, Int.le_refl t⟩
    · exact ⟨start, Int.le_refl start, h⟩
  have hlost : leaseLost ((machine.run es).db.context { env with now } id) a =
      true := by
    simp [leaseLost, hexec, ht, Database.context, hlate]
  have hw := writable_of_run hes { env with now } hr
  have hrepeat : Repeatable ((machine.run es).db.context { env with now } id) r :=
    ⟨hfixture, firstValid_of_run es hr⟩
  obtain ⟨r', hr'⟩ := handleLeaseExpired_ok a.no hw hrepeat hstatus ha hlost
  have hcap : Captured r r i a.no := ⟨rfl, fun b hb => by rw [ha] at hb; rw [Option.some.inj hb],
    fun _ => hstatus⟩
  obtain ⟨marked, -, hcore, hpolicy, -⟩ :=
    handleLeaseExpired_of_leaseLost hinv hfrozen hcap ha hlost hr'
  have hnot : r'.run.status ≠ .running := by
    have hfrozen' : marked.core.BudgetFrozen := by
      rw [hcore]
      exact hfrozen
    obtain ⟨status, _, _, _, _, hclock, hnot, -⟩ :=
      (applyPolicy_clock hfrozen' (congrArg RunCore.status hcore) hpolicy).writes
    have : r'.run.status = status := congrArg RunClock.status hclock
    rw [this]
    exact hnot
  -- Nothing has happened since the run was read.
  have hread : (machine.run es).read
      ⟨(machine.run es).past.length, (machine.run es).past.length⟩ ⟨id, i⟩ = some (a, r) := by
    simp [State.read, State.runAt, State.versions, hr, ha]
  have hcommit : (Event.request { env with now } (.leaseExpired ⟨id, i⟩
      ⟨(machine.run es).past.length, (machine.run es).past.length⟩)).commit? (machine.run es) =
        some { (machine.run es).db with runs := (machine.run es).db.runs.set id r' } := by
    simp only [Event.commit?, Request.commit?, Request.prepare, hread]
    rw [if_pos (.inl hexec)]
    refine toOption_eq_some.mpr ?_
    simp only [Database.transact, bind_eq_ok, orThrow_eq_ok, pure_eq_ok]
    exact ⟨r, hr, r', hr', rfl⟩
  refine ⟨now, .request { env with now } (.leaseExpired ⟨id, i⟩
    ⟨(machine.run es).past.length, (machine.run es).past.length⟩), hfrom,
    .leaseExpired, ?_⟩
  have hlt := (List.getElem?_eq_some_iff.mp hr).1
  have hrun' : (step (machine.run es) (.request { env with now } (.leaseExpired
      ⟨id, i⟩ ⟨(machine.run es).past.length, (machine.run es).past.length⟩))).db.runs[id]? =
        some r' := by
    unfold step
    rw [hcommit]
    exact List.getElem?_set_self hlt
  simp [movesStatus, State.runStatus?, hrun', hr, hstatus, hnot]

/-- Sweeps one after the other, from a time on. -/
inductive Schedule (env : Env) (id : RunId) : Time → List Event → Prop
  | nil {t : Time} : Schedule env id t []
  | cons {t now : Time} {e : Event} {fs : List Event} (hle : t ≤ now) (he : Sweeps env id now e)
      (hrest : Schedule env id now fs) : Schedule env id t (e :: fs)

/-- A run that is neither waiting for a claim nor being worked on. -/
def RunStatus.resting : List RunStatus := [.interrupted, .succeeded, .failed, .cancelled]

/-- No other status is ever committed. -/
theorem resting_of_idle {c : RunCore} (hinv : c.StatusInv) (hwaits : c.status ≠ .dispatched)
    (hrun : c.status ≠ .running) : c.status ∈ RunStatus.resting := by
  have htask := hinv.task
  cases hs : c.status <;> simp_all [RunCore.taskOf, RunStatus.resting]

/-- **A run can always come to rest.** From any reachable state on, claims
of the run and scans of the lease monitor alone, no more of them than the
run has moves left, lead it to a status in which no attempt executes and
none is waited for. -/
theorem comes_to_rest (hes : OwnKeys es) {r : RunRows}
    (hr : (machine.run es).db.runs[id]? = some r) (env : Env)
    (hfixture : r.task.snapshot = none →
      (env.fixtures.find (r.task.fixtureId.getD "fake")).isSome) (start : Time) :
    ∃ fs, Schedule env id start fs ∧ fs.length ≤ r.core.life ∧
      ∃ r', (machine.run (es ++ fs)).db.runs[id]? = some r' ∧
        r'.run.status ∈ RunStatus.resting := by
  -- By strong induction on the moves the run has left.
  induction hn : r.core.life using Nat.strong_induction_on generalizing es r start with
  | _ n ih =>
    have hs := sound_of_reachable (machine.reachable_run es)
    have hinv := (hs.rows hr).1
    have hmove : r.run.status = .dispatched ∨ r.run.status = .running →
        ∃ now e, start ≤ now ∧ Sweeps env id now e ∧ movesStatus id (machine.run es) e = true := by
      rintro (hstatus | hstatus)
      · obtain ⟨e, he, hmoves⟩ := claim_moves hes hr hstatus env start
        exact ⟨start, e, Int.le_refl start, he, hmoves⟩
      · exact leaseExpired_moves hes hr hstatus env hfixture start
    by_cases hbusy : r.run.status = .dispatched ∨ r.run.status = .running
    · obtain ⟨now, e, hle, he, hmoves⟩ := hmove hbusy
      obtain ⟨r₁, hr₁, hstep⟩ := rows_step_of_some hs e hr
      -- One move fewer is left.
      have hlife := (life_of_event (machine.reachable_run es) (by rw [hr]; rfl) e).2 hmoves
      rw [State.life_of_some hr, State.life_of_some hr₁] at hlife
      have hinput : SameInput r r₁ := by
        rcases hstep with rfl | ⟨env', hrow⟩
        · exact .refl _
        · exact hrow.sameInput hinv
      have hfixture₁ : r₁.task.snapshot = none →
          (env.fixtures.find (r₁.task.fixtureId.getD "fake")).isSome := by
        rw [hinput.task]
        exact hfixture
      have hrun : (machine.run (es ++ [e])).db.runs[id]? = some r₁ := by
        rw [machine.run_concat]
        exact hr₁
      obtain ⟨fs, hfs, hlength, r', hr', hrest⟩ :=
        ih r₁.core.life (hn ▸ hlife) (he.ownKeys hes) hrun hfixture₁ now rfl
      refine ⟨e :: fs, .cons hle he hfs, ?_, r', ?_, hrest⟩
      · rw [List.length_cons]
        omega
      · rw [← hr', List.append_assoc]
        rfl
    · rw [not_or] at hbusy
      exact ⟨[], .nil, Nat.zero_le _, r, by simpa using hr, resting_of_idle hinv hbusy.1 hbusy.2⟩

end

/-- A fixture task whose run was claimed. -/
def claimedFixture : List Event := [
  .createTask (envAt 0) { fixtureId := "fake", agentKind := .selfLanggraph },
  claimAt 1000 0 1 1]

/-- Its run can be recovered until no attempt is left. -/
theorem comes_to_rest_of_claimed :
    ∃ fs, Schedule (envAt 0) 0 2000 fs ∧ fs.length ≤ 8 ∧
      ∃ r', (machine.run (claimedFixture ++ fs)).db.runs[0]? = some r' ∧
        r'.run.status ∈ RunStatus.resting := by
  obtain ⟨r, hr⟩ : ∃ r, (machine.run claimedFixture).db.runs[0]? = some r := ⟨_, rfl⟩
  have hlife : r.core.life = 8 := by
    have : ((machine.run claimedFixture).db.runs[0]?).map (·.core.life) = some 8 := by decide
    rw [hr] at this
    exact Option.some.inj this
  have hfixture : ((envAt 0).fixtures.find (r.task.fixtureId.getD "fake")).isSome := by
    have : ((machine.run claimedFixture).db.runs[0]?).map (fun r =>
        ((envAt 0).fixtures.find (r.task.fixtureId.getD "fake")).isSome) = some true := by decide
    rw [hr] at this
    exact Option.some.inj this
  have hes : OwnKeys claimedFixture := by
    intro e he id n
    simp only [claimedFixture, List.mem_cons, List.not_mem_nil, or_false] at he
    rcases he with rfl | rfl <;> simp [Event.writer, Request.writer, claimAt]
  obtain ⟨fs, hfs, hlength, hrest⟩ := comes_to_rest hes hr (envAt 0) (fun _ => hfixture) 2000
  exact ⟨fs, hfs, hlife ▸ hlength, hrest⟩

end ControlPlane

end AgentReliability
