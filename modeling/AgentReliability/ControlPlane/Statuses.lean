import AgentReliability.ControlPlane.Reachability
/-!
# The statuses of a run agree, in every reachable state

Ten operations of three services write the status columns of a task, its
run and its attempts, some through the checked transitions and some by raw
updates. Whatever the interleaving, and however old the reads taken before
a transaction, the columns agree; and a run that has ended is not touched
again by any of them.
-/

namespace AgentReliability

namespace ControlPlane

/-- **The attempts of a run agree with its status.** -/
structure AttemptsAgree (r : RunRows) : Prop where
  /-- At most one attempt executes. -/
  unique : ∀ {i j : ℕ} {a b : Attempt}, r.attempts[i]? = some a → r.attempts[j]? = some b →
    a.status = .running → b.status = .running → i = j
  running_iff : (∃ a ∈ r.attempts, a.status = .running) ↔ r.run.status = .running
  /-- The attempt that executes has the highest number. -/
  highest : ∀ a ∈ r.attempts, a.status = .running → ∀ b ∈ r.attempts, b.no ≤ a.no

/-- **The run and its task agree.** -/
structure StatusesAgree (r : RunRows) : Prop where
  dispatched : r.run.status = .dispatched → r.task.status = .queued ∨ r.task.status = .running
  running : r.run.status = .running → r.task.status = .running
  interrupted : r.run.status = .interrupted ↔ r.task.status = .needsAttention
  cancelled : r.run.status = .cancelled ↔ r.task.status = .cancelled
  failed : r.run.status = .failed ↔ r.task.status = .failed
  succeeded : r.run.status = .succeeded ↔ r.approvals.length = 1

/-- **What later writes may still do to a run that has ended**: settle its
ledger, append to its event log and mark its messages. -/
def OnlyBookkeeping (r r' : RunRows) : Prop :=
  r' = { r with
    run := { r.run with
      usedTokens := r'.run.usedTokens, lastSequence := r'.run.lastSequence }
    outbox := r'.outbox, budgetCalls := r'.budgetCalls, traceEvents := r'.traceEvents } ∧
  r'.outbox.map (·.payload) = r.outbox.map (·.payload)

/-! ## Reading the invariant at the rows -/

section

variable {r : RunRows} (h : r.core.StatusInv)

include h

theorem executing_last {i : ℕ} {a : Attempt} (ha : r.attempts[i]? = some a)
    (hrun : a.status = .running) : i + 1 = r.attempts.length ∧ r.run.status = .running := by
  obtain ⟨hlast, hstatus⟩ := h.executing (RunRows.executing_of_running ha hrun)
  exact ⟨by simpa [RunRows.core] using hlast, hstatus⟩

theorem attempt_no {i : ℕ} {a : Attempt} (ha : r.attempts[i]? = some a) : a.no = i + 1 := by
  have hstate : r.core.attempts[i]? = some a.state := by
    rw [RunRows.core_attempts_getElem?, ha]; rfl
  exact h.no_eq hstate

theorem attemptsAgree : AttemptsAgree r where
  unique := fun ha hb hra hrb => by
    have h₁ := (executing_last h ha hra).1
    have h₂ := (executing_last h hb hrb).1
    omega
  running_iff := by
    constructor
    · rintro ⟨a, ha, hrun⟩
      obtain ⟨i, hi⟩ := List.getElem?_of_mem ha
      exact (executing_last h hi hrun).2
    · intro hstatus
      obtain ⟨i, no, hi⟩ := h.running hstatus
      rw [RunCore.Executing, RunRows.core_attempts_getElem?] at hi
      obtain ⟨a, ha, hstate⟩ := Option.map_eq_some_iff.mp hi
      exact ⟨a, List.mem_of_getElem? ha, congrArg AttemptState.status hstate⟩
  highest := fun a ha hrun b hb => by
    obtain ⟨i, hi⟩ := List.getElem?_of_mem ha
    obtain ⟨j, hj⟩ := List.getElem?_of_mem hb
    have hlast := (executing_last h hi hrun).1
    have hlt := (List.getElem?_eq_some_iff.mp hj).1
    rw [attempt_no h hi, attempt_no h hj]
    omega

/-- The two columns determine each other as the table `taskOf` says. -/
theorem statusesAgree : StatusesAgree r := by
  have htask : r.task.status ∈ RunCore.taskOf r.run.status := h.task
  have happ : r.approvals.length = if r.run.status = .succeeded then 1 else 0 := h.approvals
  constructor
  · intro hs
    rw [hs] at htask
    simpa [RunCore.taskOf] using htask
  · intro hs
    rw [hs] at htask
    simpa [RunCore.taskOf] using htask
  all_goals
    revert htask happ
    generalize r.approvals.length = n
    rintro htask rfl
    revert htask
    cases r.run.status <;> cases r.task.status <;> simp [RunCore.taskOf]

end

/-! ## A run that has ended -/

theorem OnlyBookkeeping.refl (r : RunRows) : OnlyBookkeeping r r := ⟨rfl, rfl⟩

theorem OnlyBookkeeping.trans {a b c : RunRows} (h₁ : OnlyBookkeeping a b)
    (h₂ : OnlyBookkeeping b c) : OnlyBookkeeping a c := by
  obtain ⟨hab, hpab⟩ := h₁
  obtain ⟨hbc, hpbc⟩ := h₂
  refine ⟨?_, hpbc.trans hpab⟩
  rw [hbc, hab]

theorem OnlyBookkeeping.status {r r' : RunRows} (h : OnlyBookkeeping r r') :
    r'.run.status = r.run.status := by
  rw [h.1]

/-- **A lifecycle transaction leaves a run that has ended as it is.** Most
abort, a repeated cancel and a late lease check find nothing to do. -/
theorem lifecycle_eq_of_idle {ctx : Context} {r r' : RunRows} {w : Writer} (hidle : r.Idle)
    (ht : r.run.status.isTerminal) (hw : w.isLifecycle) (h : RowStep ctx r r' w) : r' = r := by
  have hne : ∀ {status : RunStatus}, ¬ status.isTerminal → r.run.status ≠ status :=
    fun hn he => hn (he ▸ ht)
  cases w with
  | claimant no =>
    cases h with
    | claim h =>
      simp only [claimAttempt, bind_eq_ok, require_eq_ok] at h
      obtain ⟨-, ⟨hstatus, -⟩, -⟩ := h
      exact absurd hstatus (hne (by decide))
  | spender id =>
    cases h with
    | reserve h =>
      simp only [reserve, bind_eq_ok, require_eq_ok, orThrow_eq_ok] at h
      obtain ⟨-, -, a, ha, -, ⟨-, hrun, -⟩, -⟩ := h
      exact absurd hrun (hidle.getElem? ha).1
  | lifecycle =>
    rcases h.idle hidle with hsame | hcancel | hresume
    · exact hsame
    · unfold cancel at hcancel
      split at hcancel
      · exact (pure_eq_ok.mp hcancel).symm
      · rename_i hcancelled
        simp only [bind_eq_ok, require_eq_ok] at hcancel
        obtain ⟨-, ⟨hsucceeded, hfailed⟩, -⟩ := hcancel
        rcases RunStatus.isTerminal_iff.mp ht with hs | hs | hs
        · exact absurd hs hsucceeded
        · exact absurd hs hfailed
        · exact absurd hs hcancelled
    · simp only [resume, bind_eq_ok, require_eq_ok] at hresume
      obtain ⟨-, hstatus, -⟩ := hresume
      exact absurd hstatus (hne (by decide))
  | bookkeeping => exact absurd hw (by decide)
  | publisher => exact absurd hw (by decide)
  | runtime key => exact absurd hw (by simp [Writer.isLifecycle])

theorem lifecycle_eq_of_isTerminal {ctx : Context} {r r' : RunRows} {w : Writer}
    (hinv : r.core.StatusInv) (ht : r.run.status.isTerminal) (hw : w.isLifecycle)
    (h : RowStep ctx r r' w) : r' = r :=
  lifecycle_eq_of_idle (hinv.idle fun he => by rw [he] at ht; exact absurd ht (by decide)) ht hw h

/-- An update of a message is bookkeeping. -/
theorem onlyBookkeeping_of_updateMessage {r r' : RunRows} {j : ℕ} {f : OutboxMessage → OutboxMessage}
    (hf : ∀ m, (f m).payload = m.payload) (h : updateMessage j f r = .ok r') :
    OnlyBookkeeping r r' := by
  have hcommands := congrArg RunCore.commands (updateMessage_core hf h)
  simp only [updateMessage, bind_eq_ok, pure_eq_ok] at h
  obtain ⟨-, -, rfl⟩ := h
  exact ⟨rfl, hcommands⟩

/-- What the writers beside the lifecycle do, to any run. -/
theorem onlyBookkeeping_of_rowStep {ctx : Context} {r r' : RunRows} {w : Writer}
    (hw : ¬ w.isLifecycle) (h : RowStep ctx r r' w) : OnlyBookkeeping r r' := by
  cases w with
  | claimant no => exact absurd rfl hw
  | spender id => exact absurd rfl hw
  | lifecycle => exact absurd rfl hw
  | runtime key =>
    cases h with
    | ingest h =>
      simp only [ingest, recordEvent, bind_eq_ok, pure_eq_ok] at h
      obtain ⟨-, ⟨-, -, rfl⟩, -, -, rfl⟩ := h
      exact ⟨rfl, rfl⟩
  | publisher =>
    cases h with
    | markPublished h =>
      refine onlyBookkeeping_of_updateMessage ?_ h
      exact fun _ => rfl
  | bookkeeping =>
    cases h with
    | settle h =>
      unfold settle at h
      split at h
      · exact absurd h throw_ne_ok
      · split at h
        · simp only [bind_eq_ok, pure_eq_ok] at h
          obtain ⟨-, -, rfl⟩ := h
          exact .refl _
        · rw [pure_eq_ok] at h
          subst h
          exact ⟨rfl, rfl⟩
    | message hf h => exact onlyBookkeeping_of_updateMessage (fun m => (hf m).1) h

/-- **No event moves a run that has ended.** -/
theorem onlyBookkeeping_of_isTerminal {s : State} (hs : Sound s) {id : RunId} {r : RunRows}
    (hr : s.db.runs[id]? = some r) (ht : r.run.status.isTerminal) (es : List Event) :
    ∃ r', (machine.runFrom s es).db.runs[id]? = some r' ∧ OnlyBookkeeping r r' := by
  refine rows_relation (W := fun _ => True) (P := fun r => r.run.status.isTerminal)
    OnlyBookkeeping.refl OnlyBookkeeping.trans (fun ht h => by rw [h.status]; exact ht) ?_
    hs hr ht es fun _ _ => trivial
  intro db env id r r' w _ hinv _ ht _ h
  by_cases hw : w.isLifecycle
  · rw [lifecycle_eq_of_isTerminal hinv ht hw h]
    exact .refl _
  · exact onlyBookkeeping_of_rowStep hw h

/-- **And no lifecycle event changes any row of it.** -/
theorem eq_of_isTerminal {s : State} (hs : Sound s) {id : RunId} {r : RunRows}
    (hr : s.db.runs[id]? = some r) (ht : r.run.status.isTerminal) (es : List Event)
    (hes : ∀ e ∈ es, e.writer.isLifecycle) : (machine.runFrom s es).db.runs[id]? = some r := by
  obtain ⟨r', hr', rfl⟩ := rows_relation (W := fun w => w.isLifecycle)
    (P := fun r => r.run.status.isTerminal) (R := fun r r' => r' = r) (fun _ => rfl)
    (fun h₁ h₂ => h₂.trans h₁) (fun ht h => by rw [h]; exact ht)
    (fun _ hinv _ ht hw h => lifecycle_eq_of_isTerminal hinv ht hw h) hs hr ht es hes
  exact hr'

/-- **The statuses agree in every reachable state.** At most one attempt
of a run executes, exactly when the run is running, and it has the highest
number; the run, its task and its approval agree; and once a run has
succeeded, failed or been cancelled, the lifecycle changes no row of it
again, and no writer at all its statuses. -/
theorem statuses_agree (es : List Event) {id : RunId} {r : RunRows}
    (hr : (machine.run es).db.runs[id]? = some r) :
    AttemptsAgree r ∧ StatusesAgree r ∧
      (r.run.status = .succeeded ∨ r.run.status = .failed ∨ r.run.status = .cancelled →
        ∀ fs : List Event,
          (∃ r', (machine.run (es ++ fs)).db.runs[id]? = some r' ∧ OnlyBookkeeping r r') ∧
          ((∀ e ∈ fs, e.writer.isLifecycle) →
            (machine.run (es ++ fs)).db.runs[id]? = some r)) := by
  have hs := sound_of_reachable (machine.reachable_run es)
  have hinv := (hs.rows hr).1
  refine ⟨attemptsAgree hinv, statusesAgree hinv, fun ht fs => ?_⟩
  have hterminal := RunStatus.isTerminal_iff.mpr ht
  rw [machine.run_append]
  exact ⟨onlyBookkeeping_of_isTerminal hs hr hterminal fs, eq_of_isTerminal hs hr hterminal fs⟩

/-- A run that was confirmed, claimed and completed. -/
def completedRun : List Event := [
  .confirm (envAt 0) (smallConfirm "key") 0,
  claimAt 1000 0 1 1,
  .request (envAt 2000) (.complete ⟨0, 0⟩ (some 7) (.succeeded { patch := some "diff" })
    (checkAt 2000 2) ⟨2, 2⟩)]

/-- A cancel, and a second completion that read the run while it ran. -/
def lateRequests : List Event := [
  .request (envAt 3000) (.cancel 0),
  .request (envAt 3000) (.complete ⟨0, 0⟩ (some 7) (.failed .toolExecError {}) (checkAt 2000 2)
    ⟨2, 2⟩)]

/-- The run has succeeded, and the late requests leave it so. -/
theorem statuses_agree_of_completed :
    ∃ r, (machine.run completedRun).db.runs[0]? = some r ∧ r.run.status = .succeeded ∧
      AttemptsAgree r ∧ StatusesAgree r ∧
      (machine.run (completedRun ++ lateRequests)).db.runs[0]? = some r := by
  obtain ⟨r, hr⟩ : ∃ r, (machine.run completedRun).db.runs[0]? = some r := ⟨_, rfl⟩
  have hstatus : r.run.status = .succeeded := by
    have : ((machine.run completedRun).db.runs[0]?).map (·.run.status) = some .succeeded := by decide
    rw [hr] at this
    exact Option.some.inj this
  obtain ⟨hattempts, hstatuses, hkept⟩ := statuses_agree completedRun hr
  exact ⟨r, hr, hstatus, hattempts, hstatuses, (hkept (.inl hstatus) lateRequests).2 (by decide)⟩

end ControlPlane

end AgentReliability
