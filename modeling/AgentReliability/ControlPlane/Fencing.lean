import AgentReliability.ControlPlane.Statuses
/-!
# A worker that lost its attempt cannot change anything

The requests of a worker are fenced in four ways: a lease check under the
run lock, a lease check before the transaction with a conditional update in
it, a second look at the owner inside the completion, and a filter of its
own in `reserve`, which does not even ask for a token. All four come to the
same: what commits, commits while the attempt executes. So the requests that
come after its end can be deleted from the history.
-/

namespace AgentReliability

namespace ControlPlane

/-- The attempt a worker's request is made for. -/
def Request.attempt? : Request → Option AttemptId
  | .heartbeat id _ _ => some id
  | .complete id _ _ _ _ => some id
  | .saveCheckpoint _ input _ _ => some input.attemptId
  | .phase id _ _ _ => some id
  | .pause id _ _ _ => some id
  | .reserve _ id _ _ _ => some id
  | _ => none

def Event.attempt? : Event → Option AttemptId
  | .request _ req => req.attempt?
  | .environment _ id _ _ _ _ => some id
  | _ => none

/-- **The attempt is the one its run is being worked on by**: it executes,
and no attempt of the run has a higher number. -/
def Owns (s : State) (id : AttemptId) : Prop :=
  ∃ r a, s.db.runs[id.runId]? = some r ∧ r.attempts[id.index]? = some a ∧
    a.status = .running ∧ ∀ b ∈ r.attempts, b.no ≤ a.no

/-- The attempt has ended: it was paused, cancelled, completed, or marked as
expired. -/
def Ended (s : State) (id : AttemptId) : Bool :=
  (s.db.attempt? id).any fun a => a.status ≠ .claimed ∧ a.status ≠ .running

/-- A request of a worker whose attempt has ended. -/
def Late (s : State) (e : Event) : Bool := e.attempt?.any (Ended s)

/-! ## What commits, commits for the owner -/

/-- The row of an attempt that may still be worked on. -/
def Live (s : State) (id : AttemptId) : Prop :=
  ∃ a, s.db.attempt? id = some a ∧ (a.status = .claimed ∨ a.status = .running)

section

variable {s : State} {env : Env} {id : AttemptId} {r : RunRows} {a : Attempt}

theorem attempt?_eq (hr : s.db.runs[id.runId]? = some r) (ha : r.attempts[id.index]? = some a) :
    s.db.attempt? id = some a := by
  rw [Database.attempt?, hr]
  exact ha

theorem live_of_running (hr : s.db.runs[id.runId]? = some r) (ha : r.attempts[id.index]? = some a)
    (hrun : a.status = .running) : Live s id :=
  ⟨a, attempt?_eq hr ha, .inr hrun⟩

/-- A fenced operation found its attempt executing. -/
theorem live_of_withLease {ctx : Context} {token : Option LeaseToken} {checkTime : Bool}
    {operation : RunRows → Except ServiceError RunRows} {r' : RunRows}
    (hr : s.db.runs[id.runId]? = some r)
    (h : withLease ctx id.index token checkTime operation r = .ok r') : Live s id := by
  simp only [withLease, lease, bind_eq_ok, require_eq_ok, orThrow_eq_ok] at h
  obtain ⟨a, ha, -, ⟨-, ⟨-, -, hrun, -⟩, -⟩, -⟩ := h
  exact live_of_running hr ha hrun

/-- **A request commits only while its attempt is live.** -/
theorem live_of_request {req : Request} {db : Database} (hid : req.attempt? = some id)
    (h : req.commit? s env = some db) : Live s id := by
  obtain ⟨tx, r, r', hprep, hr, hbody, -⟩ := Request.commit_eq_some h
  cases Request.goesTo hprep with
  | heartbeat =>
    obtain rfl := Option.some.inj hid
    simp only [heartbeat, bind_eq_ok, require_eq_ok, orThrow_eq_ok] at hbody
    obtain ⟨a, ha, -, hstatus, -⟩ := hbody
    exact ⟨a, attempt?_eq hr ha, hstatus⟩
  | @complete j token outcome =>
    obtain rfl := Option.some.inj hid
    cases outcome with
    | succeeded extras =>
      simp only [completeAttempt, completeSucceeded, bind_eq_ok, require_eq_ok,
        orThrow_eq_ok] at hbody
      obtain ⟨owner, howner, -, ⟨hrun, -⟩, -⟩ := hbody
      exact live_of_running hr howner hrun
    | failed code extras =>
      simp only [completeAttempt, completeFailed, bind_eq_ok, require_eq_ok,
        orThrow_eq_ok] at hbody
      obtain ⟨owner, howner, -, hrun, -⟩ := hbody
      exact live_of_running hr howner hrun
  | saveCheckpoint hlease hrunId =>
    obtain rfl := Option.some.inj hid
    simp only [saveCheckpoint, bind_eq_ok, require_eq_ok, orThrow_eq_ok] at hbody
    obtain ⟨-, -, -, -, a, ha, -, ⟨hrun, -⟩, -⟩ := hbody
    exact live_of_running (hrunId ▸ hr) ha hrun
  | @phase j token p detail =>
    obtain rfl := Option.some.inj hid
    have hphase : phase (s.db.context env j.runId) j.index token p detail r = .ok r' := hbody
    unfold phase at hphase
    exact live_of_withLease hr hphase
  | @pause j token reason patch =>
    obtain rfl := Option.some.inj hid
    have hpause : pause (s.db.context env j.runId) j.index token reason patch r = .ok r' := hbody
    unfold pause at hpause
    exact live_of_withLease hr hpause
  | reserve =>
    obtain rfl := Option.some.inj hid
    simp only [reserve, bind_eq_ok, require_eq_ok, orThrow_eq_ok] at hbody
    obtain ⟨-, hrunId, a, ha, -, ⟨-, hrun, -⟩, -⟩ := hbody
    exact live_of_running (hrunId ▸ hr) ha hrun
  | _ => exact absurd hid (by simp [Request.attempt?])

/-- **And so does an environment report.** -/
theorem live_of_commit {e : Event} {db : Database} (hid : e.attempt? = some id)
    (h : e.commit? s = some db) : Live s id := by
  cases e with
  | request env req => exact live_of_request hid h
  | environment env j token fingerprint imageId log =>
    obtain rfl := Option.some.inj hid
    obtain ⟨db', hdb', -⟩ := Option.map_eq_some_iff.mp h
    rw [toOption_eq_some] at hdb'
    simp only [Database.transact, bind_eq_ok, orThrow_eq_ok, pure_eq_ok] at hdb'
    obtain ⟨r, hr, r', hbody, -⟩ := hdb'
    unfold ControlPlane.environment at hbody
    exact live_of_withLease hr hbody
  | _ => exact absurd hid (by simp [Event.attempt?])

/-- A live attempt is the newest one, and it executes. -/
theorem owns_of_live (hs : Sound s) (h : Live s id) : Owns s id := by
  obtain ⟨a, ha, hstatus⟩ := h
  obtain ⟨r, hr, ha⟩ := Option.bind_eq_some_iff.mp ha
  have hinv := (hs.rows hr).1
  have hunclaimed : a.status ≠ .claimed :=
    hinv.unclaimed _ (List.mem_map_of_mem (List.mem_of_getElem? ha))
  have hrun := hstatus.resolve_left hunclaimed
  exact ⟨r, a, hr, ha, hrun, (attemptsAgree hinv).highest a (List.mem_of_getElem? ha) hrun⟩

end

/-- A worker's event that commits nothing changes nothing at all. -/
theorem step_of_no_commit {s : State} {e : Event} {id : AttemptId} (hid : e.attempt? = some id)
    (h : e.commit? s = none) : step s e = s := by
  cases e with
  | request env req => exact step_of_not_commit h
  | environment env j token fingerprint imageId log =>
    unfold step
    rw [h]
    change { s with stream := s.stream ++ [] } = s
    rw [List.append_nil]
  | _ => exact absurd hid (by simp [Event.attempt?])

/-- **A request of an ended attempt leaves the whole state as it is.** -/
theorem step_of_late {s : State} {e : Event} (h : Late s e = true) : step s e = s := by
  obtain ⟨id, hid, hended⟩ := (Option.any_eq_true _ _).mp h
  obtain ⟨a, ha, hstatus⟩ := (Option.any_eq_true _ _).mp hended
  refine step_of_no_commit hid ?_
  by_contra hc
  obtain ⟨db, hdb⟩ := Option.ne_none_iff_exists'.mp hc
  obtain ⟨b, hb, hlive⟩ := live_of_commit hid hdb
  obtain rfl := Option.some.inj (ha.symm.trans hb)
  rw [decide_eq_true_eq] at hstatus
  rcases hlive with hclaimed | hrun
  · exact hstatus.1 hclaimed
  · exact hstatus.2 hrun

/-- **A worker that lost its attempt cannot change anything.** In every
history, a worker's request that changes anything finds, at its commit, its
attempt executing and the newest of its run; and every request whose
transaction comes after the attempt has ended can be deleted from the
history without a trace. -/
theorem lost_attempt_changes_nothing (es : List Event) :
    (∀ (e : Event) (id : AttemptId), e.attempt? = some id →
      step (machine.run es) e ≠ machine.run es → Owns (machine.run es) id) ∧
    machine.runFrom machine.init (machine.prune Late machine.init es) = machine.run es := by
  refine ⟨fun e id hid hchanged => ?_, ?_⟩
  · have hs := sound_of_reachable (machine.reachable_run es)
    cases hc : e.commit? (machine.run es) with
    | none => exact absurd (step_of_no_commit hid hc) hchanged
    | some db => exact owns_of_live hs (live_of_commit hid hc)
  · exact machine.runFrom_prune (P := fun _ => True) (fun _ _ _ => trivial)
      (fun _ _ _ h => step_of_late h) trivial es

/-- A worker that was paused by its user: it had passed the lease check of
its completion before, and goes on sending. -/
def pausedRun : List Event := [
  .confirm (envAt 0) (smallConfirm "key") 0,
  claimAt 1000 0 1 1,
  .request (envAt 2000) (.phase ⟨0, 0⟩ (some 7) .reproducing none),
  .request (envAt 2000) (.pauseRun 0 3),
  .request (envAt 3000) (.complete ⟨0, 0⟩ (some 7) (.succeeded { patch := some "diff" })
    (checkAt 2000 3) ⟨3, 3⟩),
  .request (envAt 3000) (.heartbeat ⟨0, 0⟩ (some 7) (checkAt 2000 3)),
  .request (envAt 3000) (.reserve 0 ⟨0, 0⟩ (some 7) 1 100),
  .request (envAt 3000) (.reserve 0 ⟨0, 0⟩ none 2 100)]

/-- What it sends after the pause leaves no trace. -/
theorem lost_attempt_changes_nothing_of_paused :
    machine.prune Late machine.init pausedRun = pausedRun.take 4 ∧
      machine.run (pausedRun.take 4) = machine.run pausedRun := by
  have hprune : machine.prune Late machine.init pausedRun = pausedRun.take 4 := rfl
  refine ⟨hprune, ?_⟩
  have := (lost_attempt_changes_nothing pausedRun).2
  rw [hprune] at this
  exact this

end ControlPlane

end AgentReliability
