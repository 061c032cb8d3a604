import AgentReliability.Common.Potential
import AgentReliability.ControlPlane.Dispatch
/-!
# The life of a run is finite

A run may be claimed, paused, resumed and redispatched, but not for ever:
every attempt is claimed once and ends once, and a run that goes on needs
room for another attempt. `life` counts the moves that are left, and no
event raises it.
-/

namespace AgentReliability

namespace ControlPlane

namespace RunCore

variable {c d : RunCore}

/-- The moves of the status column that are left to a run: three for each
attempt it may still claim, and those of the attempt it is in. -/
def life (c : RunCore) : ℕ :=
  let room := 3 * (c.maxAttempts - c.attempts.length)
  match c.status with
  | .running => room + 2
  | .interrupted => room + 1
  | .succeeded => 0
  | .failed => 0
  | .cancelled => 0
  -- A run that waits for its claim; no transaction stops in the others.
  | _ => room

theorem life_running (h : c.status = .running) :
    c.life = 3 * (c.maxAttempts - c.attempts.length) + 2 := by
  simp [life, h]

theorem life_interrupted (h : c.status = .interrupted) :
    c.life = 3 * (c.maxAttempts - c.attempts.length) + 1 := by
  simp [life, h]

theorem life_dispatched (h : c.status = .dispatched) :
    c.life = 3 * (c.maxAttempts - c.attempts.length) := by
  simp [life, h]

theorem life_terminal (h : c.status.isTerminal) : c.life = 0 := by
  rcases RunStatus.isTerminal_iff.mp h with h | h | h <;> simp [life, h]

/-- A run that is not at its end has a move left. -/
theorem life_pos (hinv : c.StatusInv) (hdispatch : c.DispatchInv) (h : ¬ c.status.isTerminal) :
    0 < c.life := by
  have htask := hinv.task
  cases hs : c.status with
  | running =>
    rw [life_running hs]
    omega
  | interrupted =>
    rw [life_interrupted hs]
    omega
  | dispatched =>
    have hroom := hdispatch.dispatched hs
    rw [life_dispatched hs]
    omega
  | succeeded => simp [hs, RunStatus.isTerminal, RunStatus.transitions] at h
  | failed => simp [hs, RunStatus.isTerminal, RunStatus.transitions] at h
  | cancelled => simp [hs, RunStatus.isTerminal, RunStatus.transitions] at h
  | pending => simp [hs, taskOf] at htask
  | verifying => simp [hs, taskOf] at htask
  | recovering => simp [hs, taskOf] at htask

@[simp] theorem length_endAttempt (c : RunCore) (i no : ℕ) (status : AttemptStatus) :
    (c.endAttempt i no status).attempts.length = c.attempts.length := by
  simp [endAttempt]

@[simp] theorem maxAttempts_endAttempt (c : RunCore) (i no : ℕ) (status : AttemptStatus) :
    (c.endAttempt i no status).maxAttempts = c.maxAttempts := rfl

/-- **No step raises the life of a run, and one that moves its status
lowers it.** -/
theorem life_step (hinv : c.StatusInv) (hdispatch : c.DispatchInv) (hs : Step c d) :
    d.life ≤ c.life ∧ (d.status ≠ c.status → d.life < c.life) := by
  cases hs with
  | stay => exact ⟨le_rfl, fun h => absurd rfl h⟩
  | claim hstatus hno hmax =>
    have hroom : c.attempts.length + 1 ≤ c.maxAttempts := by
      rw [← hinv.latestNo, ← hno]
      exact hmax
    rw [life_dispatched hstatus, life_running rfl]
    simp only [List.length_append, List.length_singleton]
    exact ⟨by omega, fun _ => by omega⟩
  | succeed _ hstatus =>
    rw [life_running hstatus, life_terminal rfl]
    exact ⟨by omega, fun _ => by omega⟩
  | park _ hstatus =>
    rw [life_running hstatus, life_interrupted rfl]
    simp only [length_endAttempt, maxAttempts_endAttempt]
    exact ⟨by omega, fun _ => by omega⟩
  | redispatch _ hstatus =>
    rw [life_running hstatus, life_dispatched rfl]
    simp only [length_endAttempt, maxAttempts_endAttempt]
    exact ⟨by omega, fun _ => by omega⟩
  | abort _ hstatus =>
    rw [life_running hstatus, life_terminal rfl]
    exact ⟨by omega, fun _ => by omega⟩
  | cancel hstatus =>
    have hpos := life_pos hinv hdispatch hstatus
    rw [life_terminal rfl]
    exact ⟨by omega, fun _ => hpos⟩
  | resume hstatus =>
    rw [life_interrupted hstatus, life_dispatched rfl]
    dsimp only
    exact ⟨by omega, fun _ => by omega⟩
  | checkpoint => exact ⟨le_rfl, fun h => absurd rfl h⟩
  | reserve => exact ⟨le_rfl, fun h => absurd rfl h⟩
  | settle => exact ⟨le_rfl, fun h => absurd rfl h⟩

theorem Created.life_eq (h : c.Created) : c.life = 3 * c.maxAttempts := by
  rw [life_dispatched h.status, h.attempts]
  rfl

end RunCore

/-! ## Over the runs of the machine -/

def State.runStatus? (s : State) (id : RunId) : Option RunStatus :=
  s.db.runs[id]?.map (·.run.status)

/-- The moves left to a run, none while it does not exist. -/
def State.life (s : State) (id : RunId) : ℕ := (s.db.runs[id]?.map (·.core.life)).getD 0

/-- The event moves the status of the run. -/
def movesStatus (id : RunId) (s : State) (e : Event) : Bool :=
  (step s e).runStatus? id ≠ s.runStatus? id

theorem State.life_of_some {s : State} {id : RunId} {r : RunRows} (hr : s.db.runs[id]? = some r) :
    s.life id = r.core.life := by
  simp [State.life, hr]

/-- One event and the life of a run. -/
theorem life_of_event {s : State} (hs : machine.Reachable s) {id : RunId}
    (hr : (s.db.runs[id]?).isSome) (e : Event) :
    (step s e).life id ≤ s.life id ∧
      (movesStatus id s e = true → (step s e).life id < s.life id) := by
  have hsound := sound_of_reachable hs
  obtain ⟨r, hr⟩ := Option.isSome_iff_exists.mp hr
  obtain ⟨es, rfl⟩ := hs
  obtain ⟨hinv, hfrozen⟩ := hsound.rows hr
  obtain ⟨r', hr', hstep⟩ := rows_step_of_some hsound e hr
  rw [State.life_of_some hr, State.life_of_some hr']
  have hcore : RunCore.Step r.core r'.core := by
    rcases hstep with rfl | ⟨env, hrow⟩
    · exact .stay _
    · exact hrow.core hr hinv hfrozen
  obtain ⟨hle, hlt⟩ := RunCore.life_step hinv (dispatchInv_of_run es hr) hcore
  refine ⟨hle, fun hmoves => hlt fun hsame => ?_⟩
  have hstatus : r'.run.status = r.run.status := hsame
  simp [movesStatus, State.runStatus?, hr, hr', hstatus] at hmoves

/-- **The life of a run is a potential of its moves.** -/
theorem life_potential (id : RunId) :
    machine.Potential (fun s => machine.Reachable s ∧ (s.db.runs[id]?).isSome) (movesStatus id)
      (fun s => s.life id) where
  keeps := by
    rintro s e ⟨hs, hr⟩
    obtain ⟨r, hr⟩ := Option.isSome_iff_exists.mp hr
    obtain ⟨r', hr', -⟩ := rows_step_of_some (sound_of_reachable hs) e hr
    refine ⟨hs.step e, ?_⟩
    show ((step s e).db.runs[id]?).isSome
    rw [hr']
    rfl
  falls := fun s e h => (life_of_event h.1 h.2 e).1
  pays := fun s e h => (life_of_event h.1 h.2 e).2

theorem life_le (es : List Event) {id : RunId} {r : RunRows}
    (hr : (machine.run es).db.runs[id]? = some r) : r.core.life ≤ 3 * r.run.maxAttempts := by
  have hP : r.core.DispatchInv ∧ r.core.life ≤ 3 * r.core.maxAttempts := by
    refine core_invariant (P := fun c => c.DispatchInv ∧ c.life ≤ 3 * c.maxAttempts) ?_ ?_ es hr
    · exact fun hcreated _ => ⟨hcreated.dispatchInv, hcreated.life_eq.le⟩
    · rintro c d hinv ⟨hdispatch, hle⟩ hs
      have hlife := (RunCore.life_step hinv hdispatch hs).1
      have hmax := (RunCore.Later.of_step hs).maxAttempts
      exact ⟨hdispatch.step hinv hs, by omega⟩
  exact hP.2

/-- **The life of a run is finite.** From any reachable state on, whatever
the workers, the lease monitor, the publisher and the people do and in
whatever order, the status of a run moves at most three times for each
attempt it may have. -/
theorem status_moves_bounded (es fs : List Event) {id : RunId} {r : RunRows}
    (hr : (machine.run es).db.runs[id]? = some r) :
    machine.moves (movesStatus id) (machine.run es) fs ≤ r.core.life ∧
      r.core.life ≤ 3 * r.run.maxAttempts := by
  refine ⟨?_, life_le es hr⟩
  have hmoves := (life_potential id).moves_le ⟨machine.reachable_run es, by rw [hr]; rfl⟩ fs
  have hlife := State.life_of_some hr
  show _ ≤ _
  omega

/-- A run is claimed and paused three times, resumed in between, and
cancelled in the end. -/
def busyRun : List Event := [
  claimAt 1000 0 1 1,
  .request (envAt 2000) (.pause ⟨0, 0⟩ (some 7) "PAUSED_BY_USER" none),
  .request (envAt 3000) (.resume 0),
  claimAt 4000 0 2 4,
  .request (envAt 5000) (.pause ⟨0, 1⟩ (some 7) "PAUSED_BY_USER" none),
  .request (envAt 6000) (.resume 0),
  claimAt 7000 0 3 7,
  .request (envAt 8000) (.pause ⟨0, 2⟩ (some 7) "PAUSED_BY_USER" none),
  .request (envAt 9000) (.cancel 0)]

/-- The bound is attained: three attempts, nine moves. -/
theorem status_moves_bounded_of_busy :
    ∃ r, (machine.run [.confirm (envAt 0) (smallConfirm "key") 0]).db.runs[0]? = some r ∧
      r.run.maxAttempts = 3 ∧
      machine.moves (movesStatus 0) (machine.run [.confirm (envAt 0) (smallConfirm "key") 0])
        busyRun = 9 ∧
      machine.moves (movesStatus 0) (machine.run [.confirm (envAt 0) (smallConfirm "key") 0])
        busyRun ≤ r.core.life := by
  obtain ⟨r, hr⟩ : ∃ r, (machine.run [.confirm (envAt 0) (smallConfirm "key") 0]).db.runs[0]? =
      some r := ⟨_, rfl⟩
  have hmax : r.run.maxAttempts = 3 := by
    have : ((machine.run [.confirm (envAt 0) (smallConfirm "key") 0]).db.runs[0]?).map
        (·.run.maxAttempts) = some 3 := by decide
    rw [hr] at this
    exact Option.some.inj this
  exact ⟨r, hr, hmax, by decide, (status_moves_bounded _ busyRun hr).1⟩

end ControlPlane

end AgentReliability
