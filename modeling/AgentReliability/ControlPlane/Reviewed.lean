import AgentReliability.ControlPlane.Delivery
import AgentReliability.ControlPlane.Statuses
/-!
# The control plane under review

The reviewers write the task's status and reason and the approval of a run
that has succeeded. `RunRows.base` takes these writes back, and the control
plane with every version so taken back is `Sound`. So a run that has not
succeeded meets the invariants of the control plane as they stand, a run
that has is idle, and a request finds no difference but the ones it cannot
see.
-/

namespace AgentReliability

namespace ControlPlane

variable {ctx : Context} {r r' : RunRows} {id : RunId} {w : Writer}

/-! ## The rows before any review -/

/-- The rows as the run left them: a run that succeeded left its task
awaiting approval. -/
def RunRows.base (r : RunRows) : RunRows :=
  if r.run.status = .succeeded then r.setTask .awaitingApproval else r

namespace RunRows

theorem base_of_ne (h : r.run.status ≠ .succeeded) : r.base = r := if_neg h

theorem base_of_succeeded (h : r.run.status = .succeeded) :
    r.base = r.setTask .awaitingApproval := if_pos h

@[simp] theorem base_run (r : RunRows) : r.base.run = r.run := by
  unfold base; split <;> rfl

@[simp] theorem base_attempts (r : RunRows) : r.base.attempts = r.attempts := by
  unfold base; split <;> rfl

@[simp] theorem base_snapshot (r : RunRows) : r.base.task.snapshot = r.task.snapshot := by
  unfold base; split <;> rfl

@[simp] theorem base_approvals (r : RunRows) : r.base.approvals = r.approvals := by
  unfold base; split <;> rfl

@[simp] theorem base_traceEvents (r : RunRows) : r.base.traceEvents = r.traceEvents := by
  unfold base; split <;> rfl

@[simp] theorem base_budgetCalls (r : RunRows) : r.base.budgetCalls = r.budgetCalls := by
  unfold base; split <;> rfl

/-- A run whose columns agree is its own base. -/
theorem base_of_statusInv (h : r.core.StatusInv) : r.base = r := by
  by_cases hs : r.run.status = .succeeded
  · have htask : r.task.status ∈ RunCore.taskOf r.run.status := h.task
    rw [hs] at htask
    have htask : r.task.status = .awaitingApproval := by simpa [RunCore.taskOf] using htask
    rw [base_of_succeeded hs]
    unfold setTask
    rw [← htask]
  · exact base_of_ne hs

end RunRows

/-- A version before any review. -/
def Database.base (db : Database) : Database := { db with runs := db.runs.map RunRows.base }

/-- The control plane before any review. -/
def State.base (s : State) : State :=
  { s with past := s.past.map Database.base, db := s.db.base }

theorem Database.base_getElem? (db : Database) (id : RunId) :
    db.base.runs[id]? = db.runs[id]?.map RunRows.base := List.getElem?_map

/-- A transaction finds the same keys, calls and attempts. -/
theorem Database.base_context (db : Database) (env : Env) (id : RunId) :
    db.base.context env id = db.context env id := by
  have hattempt : ∀ a : AttemptId, db.base.attempt? a = db.attempt? a := by
    intro a
    unfold Database.attempt?
    rw [Database.base_getElem?]
    cases db.runs[a.runId]? <;> simp
  have hruns : ∀ p : RunRows → Bool, db.base.runs.any p = db.runs.any fun r => p r.base := by
    intro p
    exact List.any_map
  simp only [Database.context, hattempt, hruns, RunRows.base_traceEvents,
    RunRows.base_budgetCalls]

theorem State.base_versions (s : State) : s.base.versions = s.versions.map Database.base := by
  simp [State.versions, State.base]

theorem State.base_runAt (s : State) (k : ℕ) (id : RunId) :
    s.base.runAt k id = (s.runAt k id).map RunRows.base := by
  unfold State.runAt
  rw [State.base_versions, List.getElem?_map]
  cases s.versions[k]? with
  | none => rfl
  | some db => exact db.base_getElem? id

theorem State.base_read (s : State) (readAt : ReadAt) (id : AttemptId) :
    s.base.read readAt id = (s.read readAt id).map fun x => (x.1, x.2.base) := by
  unfold State.read
  split
  · rw [State.base_runAt, State.base_runAt]
    cases s.runAt readAt.attemptAt id.runId with
    | none => rfl
    | some before =>
      cases s.runAt readAt.runAt id.runId with
      | none => cases ha : before.attempts[id.index]? <;> simp
      | some seen => cases ha : before.attempts[id.index]? <;> simp [ha]
  · rfl

/-- A request that reads reviewed rows has captured as much. -/
theorem captures_of_base {s : State} (h : Sound s.base) : Captures s where
  captured {readAt id a seen r} hread hr := by
    have hread' : s.base.read readAt id = some (a, seen.base) := by
      rw [State.base_read, hread]; rfl
    have hr' : s.base.db.runs[id.runId]? = some r.base := by
      change s.db.base.runs[id.runId]? = _
      rw [Database.base_getElem?, hr]; rfl
    obtain ⟨hsnapshot, hno, hrunning⟩ := h.captured hread' hr'
    have hcore : r.base.core.attempts = r.core.attempts := by simp [RunRows.core]
    refine ⟨by simpa using hsnapshot, fun b hb => hno b (by simpa using hb), fun hi => ?_⟩
    have hi' : r.base.core.Executing id.index a.no := by
      rw [RunCore.Executing, hcore]
      exact hi
    simpa using hrunning hi'

/-! ## What the rows satisfy -/

/-- The rows of a run under review. -/
theorem Sound.reviewed {s : State} (h : Sound s.base) (hr : s.db.runs[id]? = some r) :
    r.base.core.StatusInv ∧ r.base.core.BudgetFrozen := by
  have hbase : s.base.db.runs[id]? = some r.base := by
    change s.db.base.runs[id]? = _
    rw [Database.base_getElem?, hr]
    rfl
  exact h.rows hbase

/-- A run that has not succeeded meets the invariants as it stands. -/
theorem statusInv_of_base (h : r.base.core.StatusInv) (hs : r.run.status ≠ .succeeded) :
    r.core.StatusInv := by
  rw [RunRows.base_of_ne hs] at h
  exact h

/-- A run that has succeeded is idle. -/
theorem idle_of_base (h : r.base.core.StatusInv) (hs : r.run.status = .succeeded) : r.Idle := by
  have hidle : r.base.Idle := h.idle (by rw [RunRows.base_run, hs]; decide)
  intro a ha
  exact hidle a (by simpa using ha)

/-- It has one approval, and any other run has none. -/
theorem approvals_of_base (h : r.base.core.StatusInv) :
    r.approvals.length = if r.run.status = .succeeded then 1 else 0 := by
  have happ : r.base.approvals.length = if r.base.run.status = .succeeded then 1 else 0 :=
    h.approvals
  rw [RunRows.base_approvals, RunRows.base_run] at happ
  exact happ

/-! ## A request on a run under review -/

/-- The ledger is settled without a look at the task's status. -/
theorem settle_setTask {callId : CallId} {used : Option ℕ} {status : TaskStatus}
    (h : settle ctx callId used r = .ok r') :
    settle ctx callId used (r.setTask status) = .ok (r'.setTask status) := by
  have hcalls : (r.setTask status).budgetCalls = r.budgetCalls := rfl
  unfold settle at h ⊢
  rw [hcalls]
  cases hfind : r.budgetCalls.find? (·.id = callId) with
  | none =>
    rw [hfind] at h
    exact absurd h throw_ne_ok
  | some call =>
    rw [hfind] at h
    by_cases hs : call.status = .settled
    · simp only [hs, if_true, bind_eq_ok, require_eq_ok, pure_eq_ok] at h ⊢
      obtain ⟨u, hused, rfl⟩ := h
      exact ⟨u, hused, rfl⟩
    · simp only [hs, if_false, pure_eq_ok] at h ⊢
      subst h
      rfl

/-- So is a message of the outbox updated. -/
theorem updateMessage_setTask {j : ℕ} {f : OutboxMessage → OutboxMessage} {status : TaskStatus}
    (h : updateMessage j f r = .ok r') :
    updateMessage j f (r.setTask status) = .ok (r'.setTask status) := by
  simp only [updateMessage, bind_eq_ok, require_eq_ok, pure_eq_ok] at h ⊢
  obtain ⟨u, hj, rfl⟩ := h
  exact ⟨u, hj, rfl⟩

/-- And so is any write beside the lifecycle made. -/
theorem RowStep.setTask {status : TaskStatus} (hw : ¬ w.isLifecycle) (h : RowStep ctx r r' w) :
    RowStep ctx (r.setTask status) (r'.setTask status) w := by
  cases h with
  | settle h => exact .settle (settle_setTask h)
  | ingest h =>
    refine .ingest ?_
    simp only [ControlPlane.ingest, recordEvent, bind_eq_ok, require_eq_ok, pure_eq_ok] at h ⊢
    obtain ⟨_, ⟨u, hkey, rfl⟩, v, hknown, rfl⟩ := h
    exact ⟨_, ⟨u, hkey, rfl⟩, v, hknown, rfl⟩
  | message hf h => exact .message hf (updateMessage_setTask h)
  | markPublished h => exact .markPublished (updateMessage_setTask h)
  | _ => exact absurd rfl hw

/-- **A run that succeeded is only kept books about.** -/
theorem onlyBookkeeping_of_base (h : r.base.core.StatusInv) (hs : r.run.status = .succeeded)
    (hrow : RowStep ctx r r' w) : OnlyBookkeeping r r' := by
  by_cases hw : w.isLifecycle
  · rw [lifecycle_eq_of_idle (idle_of_base h hs) (by rw [hs]; decide) hw hrow]
    exact .refl _
  · exact onlyBookkeeping_of_rowStep hw hrow

/-- **A transaction on a run under review is one on the run before it**, or
is not seen there. -/
theorem RowStep.base {db : Database} {env : Env} (hr : db.runs[id]? = some r)
    (h : r.base.core.StatusInv ∧ r.base.core.BudgetFrozen)
    (hrow : RowStep (db.context env id) r r' w) :
    r'.base = r.base ∨ RowStep (db.context env id) r.base r'.base w := by
  by_cases hs : r.run.status = .succeeded
  · have hbooks := onlyBookkeeping_of_base h.1 hs hrow
    by_cases hw : w.isLifecycle
    · rw [lifecycle_eq_of_idle (idle_of_base h.1 hs) (by rw [hs]; decide) hw hrow]
      exact .inl rfl
    · have hs' : r'.run.status = .succeeded := hbooks.status.trans hs
      rw [RunRows.base_of_succeeded hs, RunRows.base_of_succeeded hs']
      exact .inr (hrow.setTask hw)
  · rw [RunRows.base_of_ne hs] at h ⊢
    have hinv' : r'.core.StatusInv := h.1.step (hrow.core hr h.1 h.2)
    rw [RunRows.base_of_statusInv hinv']
    exact .inr hrow

/-- What a committed event does to the runs, it does to them before any
review. -/
theorem DbStep.base {s : State} (h : Sound s.base) {db : Database} {env? : Option Env}
    (hstep : DbStep w env? s.db db) :
    db.base.runs = s.base.db.runs ∨ DbStep w env? s.base.db db.base := by
  have hlength : s.base.db.runs.length = s.db.runs.length := List.length_map _
  cases hstep with
  | @created env r hcreates hdb henv =>
    have hinv : r.core.StatusInv := hcreates.created.1.statusInv
    have hcreates' : Creates (s.base.db.context env s.base.db.runs.length) r := by
      rw [hlength]
      change Creates (s.db.base.context env s.db.runs.length) r
      rw [Database.base_context]
      exact hcreates
    refine .inr (.created hcreates' ?_ henv)
    change db.runs.map RunRows.base = s.db.runs.map RunRows.base ++ [r]
    rw [hdb, List.map_append, List.map_singleton, RunRows.base_of_statusInv hinv]
  | @wrote env id r r' hr hrow hdb henv =>
    have hbase : s.base.db.runs[id]? = some r.base := by
      change s.db.base.runs[id]? = _
      rw [Database.base_getElem?, hr]
      rfl
    have hruns : db.base.runs = s.base.db.runs.set id r'.base := by
      change db.runs.map RunRows.base = (s.db.runs.map RunRows.base).set id r'.base
      rw [hdb, List.map_set]
    rcases hrow.base hr (h.reviewed hr) with hsame | hrow'
    · refine .inl ?_
      obtain ⟨hlt, hget⟩ := List.getElem?_eq_some_iff.mp hbase
      rw [hruns, hsame, ← hget]
      exact List.set_getElem_self hlt
    · have hrow'' : RowStep (s.base.db.context env id) r.base r'.base w := by
        change RowStep (s.db.base.context env id) r.base r'.base w
        rw [Database.base_context]
        exact hrow'
      exact .inr (.wrote hbase hrow'' hruns henv)

/-- **Every event keeps the state before any review sound.** -/
theorem Sound.reviewed_step {s : State} (h : Sound s.base) (e : Event) :
    Sound (ControlPlane.step s e).base := by
  unfold ControlPlane.step
  split
  · rename_i db hc
    have hcommit : Sound (s.base.commit db.base) := by
      rcases ((captures_of_base h).dbStep_of_commit hc).base h with hsame | hstep
      · refine h.extend (fun r hr => ?_) fun id r hr => ⟨r, ?_, .refl _⟩
        · rw [hsame] at hr
          exact h.inv s.base.db Sound.db_mem r hr
        · rw [hsame]
          exact hr
      · exact h.commit hstep
    have hversions : ({ s.commit db with granted := s.granted ++ e.grants } : State).base.versions =
        (s.base.commit db.base).versions := by
      rw [State.base_versions]
      simp [State.versions, State.commit, State.base]
    refine ⟨?_, ?_⟩
    · rw [hversions]
      exact hcommit.inv
    · rw [hversions]
      exact hcommit.later
  · exact ⟨h.inv, h.later⟩

/-- **So does a write that the rows before any review do not show.** -/
theorem Sound.reviewed_write {s : State} (h : Sound s.base) (hr : s.db.runs[id]? = some r)
    (hcore : r'.base.core = r.base.core) :
    Sound (s.commit { s.db with runs := s.db.runs.set id r' }).base := by
  have hbase : s.base.db.runs[id]? = some r.base := by
    change s.db.base.runs[id]? = _
    rw [Database.base_getElem?, hr]
    rfl
  have hruns : ({ s.db with runs := s.db.runs.set id r' } : Database).base.runs =
      s.base.db.runs.set id r'.base := List.map_set
  have hcommit := h.rewrite hbase hcore hruns
  have hversions : (s.commit { s.db with runs := s.db.runs.set id r' }).base.versions =
      (s.base.commit ({ s.db with runs := s.db.runs.set id r' } : Database).base).versions := by
    rw [State.base_versions]
    simp [State.versions, State.commit, State.base]
  refine ⟨?_, ?_⟩
  · rw [hversions]
    exact hcommit.inv
  · rw [hversions]
    exact hcommit.later

end ControlPlane

end AgentReliability
