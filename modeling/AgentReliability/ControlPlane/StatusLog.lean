import AgentReliability.ControlPlane.Writes
/-!
# The status of a run, replayed from its log

Every move of a run to another status is logged in the transaction that
makes it, from the status it leaves to the one it takes. So these events,
in the order of their numbers, lead from the status the run was created
with to the status it has.

`phase` logs what a worker does under the same type and the same entity,
from one phase name to another. Such an event is told from a move by what
it names: no phase is called `RUNNING`, and the only name that is both a
phase a worker reports and a status is `VERIFYING`, which a run enters
from `RUNNING` alone.
-/

namespace AgentReliability

namespace ControlPlane

variable {ctx : Context} {r r' : RunRows}

/-! ## Chains of moves -/

section Leads

variable {α : Type*}

/-- **The moves lead from `s` to `t`**: the first starts at `s`, each later
one where the one before it ended, and the last ends at `t`. -/
def Leads (t : α) : α → List (α × α) → Prop
  | s, [] => s = t
  | s, m :: ms => m.1 = s ∧ Leads t m.2 ms

instance decidableLeads [DecidableEq α] (t : α) : ∀ s ms, Decidable (Leads t s ms)
  | s, [] => inferInstanceAs (Decidable (s = t))
  | s, m :: ms =>
    have := decidableLeads t m.2 ms
    inferInstanceAs (Decidable (m.1 = s ∧ Leads t m.2 ms))

/-- One more move, from where the others led. -/
theorem Leads.concat {s t u : α} {ms : List (α × α)} (h : Leads t s ms) :
    Leads u s (ms ++ [(t, u)]) := by
  induction ms generalizing s with
  | nil => exact ⟨h.symm, rfl⟩
  | cons m ms ih => exact ⟨h.1, ih h.2⟩

end Leads

/-! ## The moves a log holds -/

def RunStatus.all : List RunStatus :=
  [.pending, .dispatched, .running, .verifying, .interrupted, .recovering, .succeeded, .failed,
    .cancelled]

def RunStatus.ofName? (name : String) : Option RunStatus :=
  RunStatus.all.find? fun s => s.name = name

theorem RunStatus.ofName?_name (s : RunStatus) : RunStatus.ofName? s.name = some s := by
  cases s <;> decide

theorem RunStatus.name_of_ofName? {name : String} {s : RunStatus}
    (h : RunStatus.ofName? name = some s) : s.name = name := by
  simpa using List.find?_some h

/-- The names a `STATE_TRANSITION` of the entity `run` carries, of an event
the control plane wrote. -/
def TraceEvent.runTransition? (e : TraceEvent) : Option (String × String) :=
  match e.payload with
  | .stateTransition entity source target =>
    if e.type = .stateTransition ∧ entity = "run" then some (source, target) else none
  | _ => none

/-- The move two names stand for, if they name two statuses and a run moves
from the one to the other. -/
def moveOf (names : String × String) : Option (RunStatus × RunStatus) :=
  match RunStatus.ofName? names.1, RunStatus.ofName? names.2 with
  | some source, some target => if target ∈ source.moves then some (source, target) else none
  | _, _ => none

/-- The moves of a run, as its log has them. -/
def RunRows.moves (r : RunRows) : List (RunStatus × RunStatus) :=
  r.traceEvents.filterMap fun e => e.runTransition?.bind moveOf

/-- The status the run was created with. -/
def RunRows.createdAs (r : RunRows) : RunStatus := if r.isSnapshot then .dispatched else .pending

theorem moveOf_names {source target : RunStatus} (h : target ∈ source.moves) :
    moveOf (source.name, target.name) = some (source, target) := by
  simp [moveOf, RunStatus.ofName?_name, h]

/-- The only phase a worker reports that is called like a status. -/
theorem Phase.verifying_of_name {p : Phase} {s : RunStatus} (h : s.name = p.name) :
    s = .verifying := by
  revert h
  cases p <;> cases s <;> decide

theorem RunStatus.running_of_moves {s : RunStatus} (h : .verifying ∈ s.moves) : s = .running := by
  revert h
  cases s <;> decide

/-- **What a worker reports is no move**, as no phase is called `RUNNING`. -/
theorem moveOf_phase {phase : String} (hphase : phase ≠ "RUNNING") (p : Phase) :
    moveOf (phase, p.name) = none := by
  unfold moveOf
  split
  · rename_i source target hsource htarget
    rw [if_neg]
    intro hmem
    rw [Phase.verifying_of_name (RunStatus.name_of_ofName? htarget)] at hmem
    have hname := RunStatus.name_of_ofName? hsource
    rw [RunStatus.running_of_moves hmem] at hname
    exact hphase hname.symm
  · rfl

/-! ## The invariant -/

/-- **The log leads to the status**, from the one the run was created
with. -/
structure LogLeads (r : RunRows) : Prop where
  /-- What a run that executes is called, no phase is. -/
  phase : r.run.phase ≠ "RUNNING"
  leads : Leads r.run.status r.createdAs r.moves
  /-- A transition of the run is a move, or a phase a worker reported. -/
  known : ∀ e ∈ r.traceEvents, ∀ names ∈ e.runTransition?,
    (moveOf names).isSome ∨ ∃ p : Phase, names.2 = p.name

theorem ne_running_of_mem {phase : String} (h : phase ∈ statusPhases) : phase ≠ "RUNNING" := by
  rintro rfl
  exact absurd h (by decide)

theorem Phase.name_ne_running (p : Phase) : p.name ≠ "RUNNING" := by
  cases p <;> decide

/-- What an event leaves of the rows it is written to. -/
theorem moves_of_recordEvent {attemptId : Option AttemptId} {attemptSequence : ℕ}
    {type : TraceEventType} {payload : TracePayload} {key : ℕ → EventKey} {occurredAt : Time}
    (h : recordEvent ctx r attemptId attemptSequence type payload key occurredAt = .ok r') :
    ∃ e : TraceEvent, r'.traceEvents = r.traceEvents ++ [e] ∧
      r'.moves = r.moves ++ (e.runTransition?.bind moveOf).toList ∧ e.type = type ∧
      e.payload = payload ∧ r'.createdAs = r.createdAs ∧ r'.run.status = r.run.status ∧
      r'.run.phase = r.run.phase := by
  simp only [recordEvent, bind_eq_ok, pure_eq_ok] at h
  obtain ⟨-, -, rfl⟩ := h
  refine ⟨{
    attemptId, runSequence := r.run.lastSequence + 1, attemptSequence, type, payload
    idempotencyKey := key (r.run.lastSequence + 1), occurredAt }, rfl, ?_, rfl, rfl, rfl, rfl, rfl⟩
  unfold RunRows.moves
  rw [List.filterMap_append, List.filterMap_cons, List.filterMap_nil]
  rfl

theorem known_append {events : List TraceEvent} {e : TraceEvent}
    (h : ∀ x ∈ events, ∀ names ∈ x.runTransition?,
      (moveOf names).isSome ∨ ∃ p : Phase, names.2 = p.name)
    (he : ∀ names ∈ e.runTransition?, (moveOf names).isSome ∨ ∃ p : Phase, names.2 = p.name) :
    ∀ x ∈ events ++ [e], ∀ names ∈ x.runTransition?,
      (moveOf names).isSome ∨ ∃ p : Phase, names.2 = p.name := by
  intro x hx
  rcases List.mem_append.mp hx with hx | hx
  · exact h x hx
  · rw [List.mem_singleton.mp hx]
    exact he

/-- **Every write keeps the log leading to the status.** -/
theorem LogLeads.write (h : LogLeads r) (hw : Write ctx r r') : LogLeads r' := by
  cases hw with
  | attempts => exact ⟨h.phase, h.leads, h.known⟩
  | @columns phase hphase =>
    refine ⟨?_, h.leads, h.known⟩
    show phase ≠ "RUNNING"
    rcases hphase with hsame | hmem
    · rw [hsame]
      exact h.phase
    · exact ne_running_of_mem hmem
  | task => exact ⟨h.phase, h.leads, h.known⟩
  | @move source target _ hsource htarget hevent =>
    obtain ⟨e, hevents, hmoves, htype, hpayload, hcreated, hstatus, hphase⟩ :=
      moves_of_recordEvent hevent
    have hnames : e.runTransition? = some (source.name, target.name) := by
      simp [TraceEvent.runTransition?, hpayload, htype]
    rw [hnames, Option.bind_some, moveOf_names htarget, Option.toList_some] at hmoves
    refine ⟨by rw [hphase]; exact h.phase, ?_, ?_⟩
    · rw [hstatus, hcreated, hmoves]
      exact Leads.concat (hsource ▸ h.leads)
    · rw [hevents]
      refine known_append h.known fun names hmem => .inl ?_
      rw [hnames, Option.mem_some_iff] at hmem
      rw [← hmem, moveOf_names htarget]
      rfl
  | @phase p _ hevent =>
    obtain ⟨e, hevents, hmoves, htype, hpayload, hcreated, hstatus, hphase⟩ :=
      moves_of_recordEvent hevent
    have hnames : e.runTransition? = some (r.run.phase, p.name) := by
      simp [TraceEvent.runTransition?, hpayload, htype]
    rw [hnames, Option.bind_some, moveOf_phase h.phase, Option.toList_none,
      List.append_nil] at hmoves
    refine ⟨by rw [hphase]; exact p.name_ne_running, ?_, ?_⟩
    · rw [hstatus, hcreated, hmoves]
      exact h.leads
    · rw [hevents]
      refine known_append h.known fun names hmem => .inr ⟨p, ?_⟩
      rw [hnames, Option.mem_some_iff] at hmem
      rw [← hmem]
  | event hother hevent =>
    obtain ⟨e, hevents, hmoves, -, hpayload, hcreated, hstatus, hphase⟩ :=
      moves_of_recordEvent hevent
    have hnames : e.runTransition? = none := by
      unfold TraceEvent.runTransition?
      split
      · rename_i he
        exact absurd (hpayload.symm.trans he) (hother _ _ _)
      · rfl
    rw [hnames, Option.bind_none, Option.toList_none, List.append_nil] at hmoves
    refine ⟨by rw [hphase]; exact h.phase, ?_, ?_⟩
    · rw [hstatus, hcreated, hmoves]
      exact h.leads
    · rw [hevents]
      exact known_append h.known fun names hmem => absurd hmem (by simp [hnames])
  | send => exact ⟨h.phase, h.leads, h.known⟩
  | checkpoint => exact ⟨h.phase, h.leads, h.known⟩
  | decisions => exact ⟨h.phase, h.leads, h.known⟩
  | approval => exact ⟨h.phase, h.leads, h.known⟩
  | reports => exact ⟨h.phase, h.leads, h.known⟩
  | calls => exact ⟨h.phase, h.leads, h.known⟩
  | message => exact ⟨h.phase, h.leads, h.known⟩

/-- The rows of a new run: a fixture run has logged its first move, and a
confirmed one is created dispatched. -/
theorem Creates.logLeads (h : Creates ctx r) : LogLeads r := by
  cases h with
  | createTask h =>
    simp only [ControlPlane.createTask, bind_eq_ok] at h
    obtain ⟨input, -, fixture, -, baseCommit, -, -, -, r₁, h₁, command, -, h₂⟩ := h
    have hfixture : LogLeads (fixtureRows ctx.toEnv input fixture baseCommit) :=
      ⟨by show "QUEUED" ≠ "RUNNING"; decide, rfl, fun e he => absurd he (by simp [fixtureRows])⟩
    have htask : LogLeads r₁ := (Writes.transitionTask h₁).keeps LogLeads.write hfixture
    have hsent : ∀ c, LogLeads (r₁.send c ctx.now) :=
      fun _ => ⟨htask.phase, htask.leads, htask.known⟩
    exact (Writes.transitionRun h₂).keeps LogLeads.write (hsent _)
  | confirm h =>
    subst h
    exact ⟨by show "QUEUED" ≠ "RUNNING"; decide, rfl, fun e he => absurd he (by simp [snapshotRows])⟩

/-! ## Every reachable state -/

/-- A snapshot run is confirmed, claimed, and its worker reports that it
prepares. -/
def reportedRun : List Event := [
  .confirm (envAt 0) (smallConfirm "key") 0,
  claimAt 1000 0 1 1,
  .request (envAt 2000) (.phase ⟨0, 0⟩ (some 7) .preparing none)]

/-- **The transitions of a run are no chain as they stand.** The phase
`PREPARING` is logged like a status, and the run is `RUNNING`. -/
theorem phase_breaks_chain :
    ¬ ∀ (es : List Event) (id : RunId) (r : RunRows), (machine.run es).db.runs[id]? = some r →
      Leads r.run.status.name r.createdAs.name (r.traceEvents.filterMap (·.runTransition?)) := by
  intro h
  obtain ⟨r, hr⟩ : ∃ r, (machine.run reportedRun).db.runs[0]? = some r := ⟨_, rfl⟩
  have hevents : ((machine.run reportedRun).db.runs[0]?).map (fun r =>
      (r.run.status.name, r.createdAs.name, r.traceEvents.filterMap (·.runTransition?))) =
      some ("RUNNING", "DISPATCHED", [("DISPATCHED", "RUNNING"), ("QUEUED", "PREPARING")]) := by
    decide
  rw [hr, Option.map_some, Option.some.injEq, Prod.mk.injEq, Prod.mk.injEq] at hevents
  obtain ⟨hstatus, hcreated, hnames⟩ := hevents
  have hleads := h reportedRun 0 r hr
  rw [hstatus, hcreated, hnames] at hleads
  exact absurd hleads (by decide)

/-- **The status of a run can be replayed from its log.** In every
reachable state the events of a run are numbered in the order of the log.
Of its transitions, those that are no phase a worker reported lead from
the status the run was created with to the status it has. -/
theorem log_leads_to_status (es : List Event) (id : RunId) (r : RunRows)
    (hr : (machine.run es).db.runs[id]? = some r) :
    r.traceEvents.Pairwise (·.runSequence < ·.runSequence) ∧
      (∀ e ∈ r.traceEvents, ∀ names ∈ e.runTransition?,
        (moveOf names).isSome ∨ ∃ p : Phase, names.2 = p.name) ∧
      Leads r.run.status r.createdAs r.moves := by
  have hnumbered : (r.traceEvents.map (·.runSequence)).Pairwise (· < ·) := by
    rw [(logInv_of_run es hr).numbered]
    exact List.pairwise_lt_range'
  have hlog : LogLeads r :=
    writes_invariant (P := fun _ r => LogLeads r) Creates.logLeads (fun h hw => h.write hw) es hr
  exact ⟨List.pairwise_map.mp hnumbered, hlog.known, hlog.leads⟩

/-- In the run above the one move is the claim. -/
theorem log_leads_of_reported :
    ∃ r, (machine.run reportedRun).db.runs[0]? = some r ∧
      r.moves = [(.dispatched, .running)] ∧ Leads r.run.status .dispatched r.moves := by
  obtain ⟨r, hr⟩ : ∃ r, (machine.run reportedRun).db.runs[0]? = some r := ⟨_, rfl⟩
  have hmoves : ((machine.run reportedRun).db.runs[0]?).map (fun r => (r.createdAs, r.moves)) =
      some (.dispatched, [(.dispatched, .running)]) := by decide
  rw [hr, Option.map_some, Option.some.injEq, Prod.mk.injEq] at hmoves
  have hleads := (log_leads_to_status reportedRun 0 r hr).2.2
  rw [hmoves.1] at hleads
  exact ⟨r, hr, hmoves.2, hleads⟩

end ControlPlane

end AgentReliability
