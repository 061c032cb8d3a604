import AgentReliability.ControlPlane.Reachability
/-!
# The tokens a fixture run has used

The column `usedTokens` of a fixture run is written by two requests of a
worker, and by the ledger, which no fixture run uses. A checkpoint raises
it to the usage it carries. The end of an attempt takes the larger of the
usage it reports and of what the column was when the run was read, before
the transaction.
-/

namespace AgentReliability

namespace ControlPlane

variable {ctx : Context} {r r' seen : RunRows}

/-! ## The transactions -/

theorem PolicyOutcome.usedTokens {i no : ℕ} {c d : RunCore} (h : PolicyOutcome i no c d) :
    d.usedTokens = c.usedTokens := by
  cases h <;> rfl

theorem PolicyOutcome.not_running {i no : ℕ} {c d : RunCore} (h : PolicyOutcome i no c d)
    (hc : c.status = .interrupted) : d.status ≠ .running := by
  cases h with
  | park =>
    change c.status ≠ .running
    rw [hc]
    decide
  | redispatch => exact fun h => RunStatus.noConfusion h
  | abort => exact fun h => RunStatus.noConfusion h

def Outcome.extras : Outcome → CompleteExtras
  | succeeded extras => extras
  | failed _ extras => extras

/-- The column after a report, on a run that was read with `seen` in it. -/
def CompleteExtras.column (extras : CompleteExtras) (seen column : ℕ) : ℕ :=
  match extras.usedTokens with
  | some used => max seen used
  | none => column

theorem persistExtras_column (hseen : seen.isSnapshot = false) (i : ℕ) (extras : CompleteExtras) :
    (persistExtras ctx seen i extras r).core =
      { r.core with usedTokens := extras.column seen.run.usedTokens r.run.usedTokens } := by
  have hclock : persistClock ctx seen r = r := if_neg (by simp [hseen])
  change (persistUsage seen extras (persistClock ctx seen r)).core = _
  rw [hclock]
  unfold persistUsage CompleteExtras.column
  rw [if_neg (by simp [hseen]), RunRows.core_addSeconds]
  cases extras.usedTokens <;> rfl

/-- **The end of an attempt of a fixture run**: it executed, the run does
not run any more, and the column takes the report. -/
theorem completeAttempt_column {i no : ℕ} {outcome : Outcome} (hinv : r.core.StatusInv)
    (hfrozen : r.core.BudgetFrozen) (hcap : Captured seen r i no) (hfixture : r.isSnapshot = false)
    (h : completeAttempt ctx seen i no outcome r = .ok r') :
    r.core.Executing i no ∧ r'.run.status ≠ .running ∧
      r'.run.usedTokens = outcome.extras.column seen.run.usedTokens r.run.usedTokens := by
  have hseen : seen.isSnapshot = false := by
    unfold RunRows.isSnapshot
    rw [hcap.snapshot]
    exact hfixture
  cases outcome with
  | succeeded extras =>
    simp only [completeAttempt, completeSucceeded, bind_eq_ok, require_eq_ok, orThrow_eq_ok] at h
    obtain ⟨owner, howner, -, ⟨hrun, -⟩, -, -, r₁, h₁, r₂, h₂, r₃, h₃, h₄⟩ := h
    have hi := RunRows.executing_of_running howner hrun
    rw [hcap.no_eq owner howner] at hi
    have hcore : r'.core = { (r.endAttempt i .succeeded none ctx.now).core with
        usedTokens := extras.column seen.run.usedTokens r.run.usedTokens
        status := .succeeded
        task := .awaitingApproval
        approvals := r.core.approvals + 1 } := by
      rw [appendSyntheticEvent_core h₄, RunRows.core_createApproval, RunRows.core_setPhase,
        (transitionTask_core h₃).2, (transitionRun_core h₂).2, (transitionRun_core h₁).2,
        persistExtras_column hseen]
      rfl
    refine ⟨hi, ?_, congrArg RunCore.usedTokens hcore⟩
    have hstatus : r'.run.status = .succeeded := congrArg RunCore.status hcore
    rw [hstatus]
    decide
  | failed code extras =>
    simp only [completeAttempt, completeFailed, bind_eq_ok, require_eq_ok, orThrow_eq_ok] at h
    obtain ⟨owner, howner, -, hrun, interrupted, h₁, h₂⟩ := h
    have hi := RunRows.executing_of_running howner hrun
    rw [hcap.no_eq owner howner] at hi
    have hint := interruptSeen_core hcap hi h₁
    rw [persistExtras_column hseen] at hint
    have htask : interrupted.core.task = .running := by
      rw [hint]
      exact hinv.task_running (hinv.executing hi).2
    have houtcome := applyPolicy_outcome (by rw [hint]; exact hfrozen) htask h₂
    refine ⟨hi, houtcome.not_running (by rw [hint]), houtcome.usedTokens.trans ?_⟩
    rw [hint]
    rfl

/-- **A checkpoint of a fixture run**: its attempt executes, and the column
is raised to its usage. -/
theorem saveCheckpoint_column {input : Checkpoint} (hfixture : r.isSnapshot = false)
    (h : saveCheckpoint ctx input r = .ok r') :
    (∃ no, r.core.Executing input.attemptId.index no) ∧
      r'.run.usedTokens = max r.run.usedTokens input.usedTokens := by
  simp only [saveCheckpoint, bind_eq_ok, require_eq_ok, orThrow_eq_ok] at h
  obtain ⟨-, -, -, -, a, ha, -, ⟨hrun, -⟩, h⟩ := h
  refine ⟨⟨a.no, RunRows.executing_of_running ha hrun⟩, ?_⟩
  split at h
  · rename_i hlt
    rw [pure_eq_ok] at h
    subst h
    exact (Nat.max_eq_right (Nat.le_of_lt hlt.2)).symm
  · rename_i hge
    rw [pure_eq_ok] at h
    subst h
    refine (Nat.max_eq_left (Nat.le_of_not_lt fun hlt => hge ⟨?_, hlt⟩)).symm
    exact hfixture

theorem handleLeaseExpired_usedTokens {i no : ℕ} (hinv : r.core.StatusInv)
    (hfrozen : r.core.BudgetFrozen) (hcap : Captured seen r i no)
    (h : handleLeaseExpired ctx seen i no r = .ok r') : r'.run.usedTokens = r.run.usedTokens := by
  unfold handleLeaseExpired at h
  split at h
  · rw [← pure_eq_ok.mp h]
  · rename_i a ha
    split at h
    · rename_i hlost
      simp only [bind_eq_ok] at h
      obtain ⟨interrupted, h₁, h₂⟩ := h
      have hi := executing_of_leaseLost hinv ha hlost
      rw [hcap.no_eq a ha] at hi
      have hint := interruptSeen_core hcap hi h₁
      have htask : interrupted.core.task = .running := by
        rw [hint]
        exact hinv.task_running (hinv.executing hi).2
      refine (applyPolicy_outcome (by rw [hint]; exact hfrozen) htask h₂).usedTokens.trans ?_
      rw [hint]
      rfl
    · rw [← pure_eq_ok.mp h]

theorem claimAttempt_usedTokens {input : ClaimInput} (h : claimAttempt ctx seen input r = .ok r') :
    r'.run.usedTokens = r.run.usedTokens := by
  simp only [claimAttempt, bind_eq_ok, require_eq_ok] at h
  obtain ⟨-, -, r₁, h₁, h₂⟩ := h
  have hrun := congrArg RunCore.usedTokens (transitionRun_core h₁).2
  rw [RunRows.core_createAttempt] at hrun
  split at h₂
  · exact (congrArg RunCore.usedTokens (transitionTask_core h₂).2).trans hrun
  · rw [← pure_eq_ok.mp h₂]
    exact hrun

theorem pause_usedTokens {i : ℕ} {token : Option LeaseToken} {reason : String}
    {patch : Option String} (h : pause ctx i token reason patch r = .ok r') :
    r'.run.usedTokens = r.run.usedTokens := by
  obtain ⟨-, h⟩ := withLease_ok h
  refine (congrArg RunCore.usedTokens (controlEvent_core h)).trans ?_
  cases patch.filter (· ≠ "") <;> rfl

theorem cancel_usedTokens (h : cancel ctx r = .ok r') :
    r'.run.usedTokens = r.run.usedTokens := by
  unfold cancel at h
  split at h
  · rw [← pure_eq_ok.mp h]
  · simp only [bind_eq_ok, require_eq_ok] at h
    obtain ⟨-, -, h⟩ := h
    exact congrArg RunCore.usedTokens (controlEvent_core h)

theorem resume_usedTokens (h : resume ctx r = .ok r') :
    r'.run.usedTokens = r.run.usedTokens := by
  simp only [resume, bind_eq_ok, require_eq_ok, orThrow_eq_ok] at h
  obtain ⟨-, -, snapshot, -, -, -, -, -, h⟩ := h
  exact congrArg RunCore.usedTokens (controlEvent_core h)

theorem reserve_usedTokens {attemptId : AttemptId} {token : Option LeaseToken} {id : CallId}
    {reserved : ℕ} (h : reserve ctx attemptId token id reserved r = .ok r') :
    r'.run.usedTokens = r.run.usedTokens := by
  simp only [reserve, bind_eq_ok, require_eq_ok, orThrow_eq_ok, pure_eq_ok] at h
  obtain ⟨-, -, a, -, -, -, -, -, -, -, -, -, -, -, rfl⟩ := h
  rfl

/-! ## The requests -/

/-- The run whose usage a request may write. -/
def Request.usageOf : Request → Option RunId
  | .complete id .. => some id.runId
  | .saveCheckpoint runId .. => some runId
  | .settle runId .. => some runId
  | _ => none

def Event.usageOf : Event → Option RunId
  | .request _ req => req.usageOf
  | _ => none

theorem usedTokens_of_core (h : r'.core = r.core) : r'.run.usedTokens = r.run.usedTokens :=
  congrArg RunCore.usedTokens h

/-- **A request that reports no usage of a run leaves its column alone.** -/
theorem usedTokens_of_prepare {s : State} (hs : Sound s) {env : Env} {req : Request}
    {tx : Transaction} (hprep : req.prepare s env = .ok (some tx))
    (hr : s.db.runs[tx.runId]? = some r)
    (hbody : tx.body (s.db.context env tx.runId) r = .ok r')
    (hquiet : req.usageOf ≠ some tx.runId) : r'.run.usedTokens = r.run.usedTokens := by
  obtain ⟨hinv, hfrozen⟩ := hs.rows hr
  cases Request.goesTo hprep with
  | claim => exact claimAttempt_usedTokens hbody
  | heartbeat => exact usedTokens_of_core (heartbeat_core hbody)
  | complete => exact absurd rfl hquiet
  | saveCheckpoint => exact absurd rfl hquiet
  | leaseExpired hread =>
    exact handleLeaseExpired_usedTokens hinv hfrozen (hs.captured hread hr) hbody
  | phase => exact usedTokens_of_core (phase_core hbody)
  | pause => exact pause_usedTokens hbody
  | @pauseRun runId readAt i a =>
    have hpause : pause (s.db.context env runId) i a.leaseToken "PAUSED_BY_USER" none r = .ok r' :=
      hbody
    exact pause_usedTokens hpause
  | cancel => exact cancel_usedTokens hbody
  | resume => exact resume_usedTokens hbody
  | reserve => exact reserve_usedTokens hbody
  | settle => exact absurd rfl hquiet
  | ingest => exact usedTokens_of_core (ingest_core hbody)
  | markPublished => exact usedTokens_of_core (markPublished_core hbody)
  | countFailure =>
    refine usedTokens_of_core (updateMessage_core ?_ hbody)
    exact fun _ => rfl
  | republish =>
    refine usedTokens_of_core (updateMessage_core ?_ hbody)
    exact fun _ => rfl

/-- The same, for every event. -/
theorem usedTokens_of_quiet {s : State} (hs : Sound s) {e : Event} {id : RunId}
    (hquiet : e.usageOf ≠ some id) (hr : s.db.runs[id]? = some r)
    (hr' : (step s e).db.runs[id]? = some r') : r'.run.usedTokens = r.run.usedTokens := by
  rcases db_step s e with ⟨db, hc, hdb⟩ | hdb
  · rw [hdb] at hr'
    have hlt := (List.getElem?_eq_some_iff.mp hr).1
    cases e with
    | createTask env input =>
      obtain ⟨x, -, rfl⟩ := Option.map_eq_some_iff.mp hc
      rw [List.getElem?_append_left hlt, hr] at hr'
      rw [Option.some.inj hr']
    | confirm env input readAt =>
      obtain ⟨x, -, rfl⟩ := Option.map_eq_some_iff.mp hc
      rw [List.getElem?_append_left hlt, hr] at hr'
      rw [Option.some.inj hr']
    | request env req =>
      obtain ⟨tx, x, x', hprep, hx, hbody, rfl⟩ := Request.commit_eq_some hc
      by_cases hid : tx.runId = id
      · subst hid
        obtain rfl := Option.some.inj (hr.symm.trans hx)
        rw [List.getElem?_set_self hlt] at hr'
        obtain rfl := Option.some.inj hr'
        exact usedTokens_of_prepare hs hprep hx hbody hquiet
      · rw [List.getElem?_set_ne hid, hr] at hr'
        rw [Option.some.inj hr']
    | environment env aid token fingerprint imageId log =>
      obtain ⟨db', hdb', rfl⟩ := Option.map_eq_some_iff.mp hc
      rw [toOption_eq_some] at hdb'
      simp only [Database.transact, bind_eq_ok, orThrow_eq_ok, pure_eq_ok] at hdb'
      obtain ⟨x, hx, x', hbody, rfl⟩ := hdb'
      by_cases hid : aid.runId = id
      · subst hid
        obtain rfl := Option.some.inj (hr.symm.trans hx)
        rw [List.getElem?_set_self hlt] at hr'
        obtain rfl := Option.some.inj hr'
        exact usedTokens_of_core (environment_core hbody)
      · rw [List.getElem?_set_ne hid, hr] at hr'
        rw [Option.some.inj hr']
    | publish => exact absurd hc (by simp [Event.commit?])
  · rw [hdb, hr] at hr'
    rw [Option.some.inj hr']

/-- **A report of the end of an attempt of a fixture run that commits.** -/
theorem column_of_complete {s : State} (hs : Sound s) {env : Env} {id : AttemptId}
    {token : Option LeaseToken} {outcome : Outcome} {check : LeaseCheck} {readAt : ReadAt}
    {db : Database} (hc : (Request.complete id token outcome check readAt).commit? s env = some db)
    (hr : s.db.runs[id.runId]? = some r) (hfixture : r.isSnapshot = false)
    (hr' : db.runs[id.runId]? = some r') :
    ∃ seen no, s.runAt readAt.runAt id.runId = some seen ∧ seen.core.Executing id.index no ∧
      r.core.Executing id.index no ∧ r'.run.status ≠ .running ∧
      r'.run.usedTokens = outcome.extras.column seen.run.usedTokens r.run.usedTokens := by
  obtain ⟨tx, x, x', hprep, hx, hbody, rfl⟩ := Request.commit_eq_some hc
  cases Request.goesTo hprep with
  | @complete _ _ _ _ _ _ a seen hlease hread =>
    obtain rfl := Option.some.inj (hr.symm.trans hx)
    rw [List.getElem?_set_self (List.getElem?_eq_some_iff.mp hr).1] at hr'
    obtain rfl := Option.some.inj hr'
    obtain ⟨hinv, hfrozen⟩ := hs.rows hr
    obtain ⟨hi, hstatus, hused⟩ :=
      completeAttempt_column hinv hfrozen (hs.captured hread hr) hfixture hbody
    -- What executes now was executing when the run was read.
    unfold State.read at hread
    split at hread
    · rename_i hle
      simp only [Option.bind_eq_bind, Option.bind_eq_some_iff, Option.some.injEq,
        Prod.mk.injEq] at hread
      obtain ⟨before, hbefore, a', ha, seen', hseen, rfl, rfl⟩ := hread
      obtain ⟨v, -, hv, hvr⟩ := Sound.of_runAt hbefore
      obtain ⟨w, hwmem, hw, hwr⟩ := Sound.of_runAt hseen
      obtain ⟨y, hy, hvw⟩ := hs.later_of_le hle hv hw _ _ hvr
      obtain rfl := Option.some.inj (hwr.symm.trans hy)
      obtain ⟨z, hz, hwdb⟩ := hs.later_db hwmem _ _ hwr
      obtain rfl := Option.some.inj (hr.symm.trans hz)
      have hlt : id.index < before.core.attempts.length := by
        simpa [RunRows.core] using (List.getElem?_eq_some_iff.mp ha).1
      exact ⟨seen', a'.no, hseen, hwdb.executing (hlt.trans_le hvw.length_le) hi, hi, hstatus, hused⟩
    · exact absurd hread (by simp)

/-- **A checkpoint of a fixture run that commits.** -/
theorem column_of_saveCheckpoint {s : State} {env : Env} {id : RunId}
    {token : Option LeaseToken} {input : Checkpoint} {check : LeaseCheck}
    {db : Database} (hc : (Request.saveCheckpoint id input token check).commit? s env = some db)
    (hr : s.db.runs[id]? = some r) (hfixture : r.isSnapshot = false)
    (hr' : db.runs[id]? = some r') :
    input.attemptId.runId = id ∧ (∃ no, r.core.Executing input.attemptId.index no) ∧
      r'.run.usedTokens = max r.run.usedTokens input.usedTokens := by
  obtain ⟨tx, x, x', hprep, hx, hbody, rfl⟩ := Request.commit_eq_some hc
  cases Request.goesTo hprep with
  | saveCheckpoint hlease hrunId =>
    obtain rfl := Option.some.inj (hr.symm.trans hx)
    rw [List.getElem?_set_self (List.getElem?_eq_some_iff.mp hr).1] at hr'
    obtain rfl := Option.some.inj hr'
    exact ⟨hrunId, saveCheckpoint_column hfixture hbody⟩

end ControlPlane

end AgentReliability
