import AgentReliability.ControlPlane.Review
import AgentReliability.ControlPlane.Writes
/-!
# The delivery queue agrees with the task

A job, its approval and its task are written by four transactions and a
manual retry, each under a condition on the job alone. In every reachable
state the three say the same: what waits or executes is approved, what
succeeded carries the URL of its pull request, and what stopped can be seen
to have failed.
-/

namespace AgentReliability

namespace ControlPlane

open DeliveryService

variable {sha256 : String → String} {id : RunId} {c c' : Case} {d : Desk} {r r' : RunRows}
  {job : DeliveryJob} {a : Approval} {snapshot : TaskSnapshot} {task : TaskStatus}

/-- **The job, the approval and the task of one run agree.** -/
structure JobAgrees (job : DeliveryJob) (a : Approval) (task : TaskStatus) : Prop where
  waiting : job.status = .queued ∨ job.status = .running → task = .approved
  succeeded : job.status = .succeeded → task = .prCreated ∧ a.prUrl = job.prUrl
  stopped : job.status = .failed ∨ job.status = .needsAttention → task = .prFailed
  /-- A job that waits can be claimed. -/
  claimable : job.status = .queued → job.attempts < 5

/-- The task statuses a decision goes with. -/
def reviewed : ApprovalStatus → DeliveryKind → List TaskStatus
  | .pending, _ => [.awaitingApproval]
  | .rejected, _ => [.rejected]
  | .approved, .patch => [.resolved]
  | .approved, .pullRequest => [.approved, .prCreated, .prFailed]

/-- **The review of a snapshot run agrees with itself.** -/
structure ReviewAgrees (snapshot : TaskSnapshot) (a : Approval) (task : TaskStatus)
    (job : Option DeliveryJob) : Prop where
  status : task ∈ reviewed a.status snapshot.delivery.kind
  job_iff : job.isSome ↔ a.status = .approved ∧ snapshot.delivery.kind = .pullRequest
  job : ∀ x ∈ job, JobAgrees x a task ∧ a.patchDigest = some x.patchDigest

structure CaseInv (c : Case) : Prop where
  unreviewed : c.rows.run.status ≠ .succeeded → c.job = none
  fixture : c.rows.task.snapshot = none → c.job = none
  agrees : c.rows.run.status = .succeeded → ∀ snapshot, c.rows.task.snapshot = some snapshot →
    ∃ a, c.rows.approvals = [a] ∧ ReviewAgrees snapshot a c.rows.task.status c.job

/-! ## What the control plane writes -/

theorem approvals_of_recordEvent {ctx : Context} {attemptId : Option AttemptId}
    {attemptSequence : ℕ} {type : TraceEventType} {payload : TracePayload} {key : ℕ → EventKey}
    {occurredAt : Time}
    (h : recordEvent ctx r attemptId attemptSequence type payload key occurredAt = .ok r') :
    r'.approvals = r.approvals := by
  simp only [recordEvent, bind_eq_ok, pure_eq_ok] at h
  obtain ⟨-, -, rfl⟩ := h
  rfl

/-- An approval the control plane adds is pending. -/
theorem Writes.approvals {ctx : Context} (h : Writes ctx r r') :
    ∀ a ∈ r'.approvals, a ∈ r.approvals ∨ a.status = .pending := by
  refine h.keeps (P := fun x => ∀ a ∈ x.approvals, a ∈ r.approvals ∨ a.status = .pending) ?_
    fun a ha => .inl ha
  intro x y hx hwrite
  cases hwrite with
  | approval patchDigest =>
    intro a ha
    rcases List.mem_append.mp ha with ha | ha
    · exact hx a ha
    · rw [List.mem_singleton.mp ha]
      exact .inr rfl
  | move _ _ hevent =>
    rw [approvals_of_recordEvent hevent]
    exact hx
  | phase hevent =>
    rw [approvals_of_recordEvent hevent]
    exact hx
  | event _ hevent =>
    rw [approvals_of_recordEvent hevent]
    exact hx
  | _ => exact hx

/-- **A run that is not under review yet**: a transaction leaves it so, or
opens the review with a pending approval its task awaits. -/
theorem review_of_rowStep {db : Database} {env : Env} {w : Writer} (hr : db.runs[id]? = some r)
    (hbase : r.base.core.StatusInv ∧ r.base.core.BudgetFrozen) (hs : r.run.status ≠ .succeeded)
    (hrow : RowStep (db.context env id) r r' w) :
    (r'.run.status = .succeeded ∧ r'.task.status = .awaitingApproval ∧
        ∃ a, r'.approvals = [a] ∧ a.status = .pending) ∨
      (r'.run.status ≠ .succeeded ∧ r'.approvals = [] ∧ r'.task.status ≠ .prFailed) := by
  rw [RunRows.base_of_ne hs] at hbase
  have hinv' : r'.core.StatusInv := hbase.1.step (hrow.core hr hbase.1 hbase.2)
  have hnone : r.approvals = [] := by
    have hlength : r.approvals.length = if r.run.status = .succeeded then 1 else 0 :=
      hbase.1.approvals
    rw [if_neg hs, List.length_eq_zero_iff] at hlength
    exact hlength
  have hlength : r'.approvals.length = if r'.run.status = .succeeded then 1 else 0 :=
    hinv'.approvals
  have htask : r'.task.status ∈ RunCore.taskOf r'.run.status := hinv'.task
  by_cases hs' : r'.run.status = .succeeded
  · rw [if_pos hs'] at hlength
    obtain ⟨a, ha⟩ := List.length_eq_one_iff.mp hlength
    rw [hs'] at htask
    refine .inl ⟨hs', List.mem_singleton.mp htask, a, ha, ?_⟩
    rcases (hrow.writes hbase.1).approvals a (by rw [ha]; exact List.mem_singleton_self a) with
      hold | hpending
    · rw [hnone] at hold
      exact absurd hold List.not_mem_nil
    · exact hpending
  · rw [if_neg hs', List.length_eq_zero_iff] at hlength
    refine .inr ⟨hs', hlength, fun hfailed => ?_⟩
    rw [hfailed] at htask
    revert htask
    cases r'.run.status <;> decide

/-- A new approval is pending, and its task awaits it. -/
theorem CaseInv.of_rowStep {db : Database} {env : Env} {w : Writer} (hr : db.runs[id]? = some r)
    (hbase : r.base.core.StatusInv ∧ r.base.core.BudgetFrozen) {job : Option DeliveryJob}
    (h : CaseInv ⟨r, job⟩) (hrow : RowStep (db.context env id) r r' w) : CaseInv ⟨r', job⟩ := by
  by_cases hs : r.run.status = .succeeded
  · have hbooks := onlyBookkeeping_of_base hbase.1 hs hrow
    have hstatus : r'.run.status = r.run.status := hbooks.status
    have htask : r'.task = r.task := by rw [hbooks.1]
    have happrovals : r'.approvals = r.approvals := by rw [hbooks.1]
    refine ⟨fun hne => absurd (hstatus.trans hs) hne, fun hnone => ?_, fun _ snapshot hsome => ?_⟩
    · have hnone : r'.task.snapshot = none := hnone
      rw [htask] at hnone
      exact h.fixture hnone
    · have hsome : r'.task.snapshot = some snapshot := hsome
      rw [htask] at hsome
      obtain ⟨a, ha, hagrees⟩ := h.agrees hs snapshot hsome
      refine ⟨a, happrovals.trans ha, ?_⟩
      change ReviewAgrees snapshot a r'.task.status job
      rw [htask]
      exact hagrees
  · have hjob : job = none := h.unreviewed hs
    refine ⟨fun _ => hjob, fun _ => hjob, fun hs' snapshot _ => ?_⟩
    rcases review_of_rowStep hr hbase hs hrow with ⟨-, htask, a, ha, hpending⟩ | ⟨hne, -⟩
    · refine ⟨a, ha, ?_, ?_, fun x hx => ?_⟩
      · rw [hpending]
        exact List.mem_singleton.mpr htask
      · rw [hjob, hpending]
        simp
      · rw [hjob] at hx
        exact absurd hx (by simp)
    · exact absurd hs' hne

/-! ## What a step of the case writes -/

/-- A run with a job was approved for a pull request. -/
theorem ReviewAgrees.of_job (h : ReviewAgrees snapshot a task (some job)) :
    a.status = .approved ∧ snapshot.delivery.kind = .pullRequest ∧ JobAgrees job a task ∧
      a.patchDigest = some job.patchDigest := by
  obtain ⟨hstatus, hkind⟩ := h.job_iff.mp rfl
  obtain ⟨hjob, hdigest⟩ := h.job job rfl
  exact ⟨hstatus, hkind, hjob, hdigest⟩

/-- The review of a run with a job, by the job. -/
theorem reviewAgrees_of_job (hstatus : a.status = .approved)
    (hkind : snapshot.delivery.kind = .pullRequest)
    (htask : task ∈ reviewed .approved .pullRequest) (hjob : JobAgrees job a task)
    (hdigest : a.patchDigest = some job.patchDigest) :
    ReviewAgrees snapshot a task (some job) := by
  refine ⟨?_, ?_, fun x hx => ?_⟩
  · rw [hstatus, hkind]
    exact htask
  · rw [hstatus, hkind]
    simp
  · obtain rfl := Option.some.inj hx
    exact ⟨hjob, hdigest⟩

theorem jobAgrees_queued (hs : job.status = .queued) (hlt : job.attempts < 5) :
    JobAgrees job a .approved := by
  refine ⟨fun _ => rfl, fun h => ?_, fun h => ?_, fun _ => hlt⟩ <;> simp [hs] at h

theorem jobAgrees_running (hs : job.status = .running) : JobAgrees job a .approved := by
  refine ⟨fun _ => rfl, fun h => ?_, fun h => ?_, fun h => ?_⟩ <;> simp [hs] at h

theorem jobAgrees_succeeded (hs : job.status = .succeeded) (hurl : a.prUrl = job.prUrl) :
    JobAgrees job a .prCreated := by
  refine ⟨fun h => ?_, fun _ => ⟨rfl, hurl⟩, fun h => ?_, fun h => ?_⟩ <;> simp [hs] at h

theorem jobAgrees_stopped (hs : job.status = .failed ∨ job.status = .needsAttention) :
    JobAgrees job a .prFailed := by
  refine ⟨fun h => ?_, fun h => ?_, fun _ => rfl, fun h => ?_⟩ <;> rcases hs with hs | hs <;>
    simp [hs] at h

/-- **A settled job agrees with what it was settled with.** -/
theorem ReviewAgrees.settle {w : JobWrite} (hw : Settles w) (hadmits : w.admits job)
    (ha : r.approvals = [a]) (h : ReviewAgrees snapshot a r.task.status (some job)) :
    ∃ a', (w.rows r).approvals = [a'] ∧
      ReviewAgrees snapshot a' (w.rows r).task.status (some (w.job job)) := by
  obtain ⟨hstatus, hkind, -, hdigest⟩ := h.of_job
  have happrovals : ∀ f : Approval → Approval, (r.updateApproval f).approvals = [f a] := by
    intro f
    unfold RunRows.updateApproval
    rw [ha]
    rfl
  have happroved : TaskStatus.approved ∈ reviewed .approved .pullRequest := by decide
  have hcreated : TaskStatus.prCreated ∈ reviewed .approved .pullRequest := by decide
  have hfailed : TaskStatus.prFailed ∈ reviewed .approved .pullRequest := by decide
  cases hw with
  | retry =>
    have hlt : job.attempts < 5 := by
      simp only [DeliveryService.retry, Bool.and_eq_true, decide_eq_true_eq] at hadmits
      exact hadmits.2
    exact ⟨_, happrovals _, reviewAgrees_of_job hstatus hkind happroved (jobAgrees_queued rfl hlt)
      hdigest⟩
  | exhaust now =>
    exact ⟨_, happrovals _, reviewAgrees_of_job hstatus hkind hfailed (jobAgrees_stopped (.inl rfl))
      hdigest⟩
  | succeed token url =>
    exact ⟨_, happrovals _, reviewAgrees_of_job hstatus hkind hcreated (jobAgrees_succeeded rfl rfl)
      hdigest⟩
  | fail token error =>
    have hstopped : error.status = .failed ∨ error.status = .needsAttention := by
      cases error with
      | conflict message => exact .inr rfl
      | other => exact .inl rfl
    exact ⟨_, happrovals _, reviewAgrees_of_job hstatus hkind hfailed (jobAgrees_stopped hstopped)
      hdigest⟩

/-- A job that is held agrees as it did: it is claimed out of the queue,
or taken over. -/
theorem JobAgrees.hold {job' : DeliveryJob} (h : JobAgrees job a task) (hholds : Holds job job') :
    JobAgrees job' a task := by
  cases hholds with
  | @claim candidate readNow now token hcandidate hadmits =>
    have hwaiting : job.status = .queued ∨ job.status = .running := by
      simp only [DeliveryService.claimable, claimAdmits, Bool.and_eq_true, Bool.or_eq_true,
        decide_eq_true_eq] at hcandidate hadmits
      rw [hadmits.1]
      exact hcandidate.2.imp_right And.left
    rw [h.waiting hwaiting]
    exact jobAgrees_running rfl
  | renew => exact ⟨h.waiting, h.succeeded, h.stopped, h.claimable⟩
  | record => exact ⟨h.waiting, h.succeeded, h.stopped, h.claimable⟩

theorem Holds.patchDigest {job' : DeliveryJob} (h : Holds job job') :
    job'.patchDigest = job.patchDigest := by
  cases h <;> rfl

/-- The review of a run without a job. -/
theorem reviewAgrees_of_none (htask : task ∈ reviewed a.status snapshot.delivery.kind)
    (hne : ¬ (a.status = .approved ∧ snapshot.delivery.kind = .pullRequest)) :
    ReviewAgrees snapshot a task none :=
  ⟨htask, ⟨fun h => absurd h (by simp), fun h => absurd h hne⟩, fun x hx => absurd hx (by simp)⟩

/-- A pending approval has no job yet. -/
theorem ReviewAgrees.job_of_pending {job : Option DeliveryJob}
    (h : ReviewAgrees snapshot a task job) (hpending : a.status = .pending) : job = none := by
  by_contra hjob
  have happroved := (h.job_iff.mp (Option.isSome_iff_ne_none.mpr hjob)).1
  rw [hpending] at happroved
  exact absurd happroved (by decide)

theorem approvals_decideAs {status : ApprovalStatus} {reviewer : String} {now : Time}
    (ha : r.approvals = [a]) : (r.decideAs status reviewer now).approvals =
      [{ a with status, reviewer := some reviewer, decidedAt := some now }] := by
  unfold RunRows.decideAs RunRows.updateApproval
  rw [ha]
  rfl

/-- The newest patch of the run is the one the approval names. -/
theorem patchDigest_of_unchanged (h : patchUnchanged sha256 r a) :
    ∃ patch, r.latestPatch = some patch ∧ a.patchDigest = some (sha256 patch.content) := by
  obtain ⟨patch, hpatch, hdigest⟩ := (Option.any_eq_true _ _).mp h
  exact ⟨patch, hpatch, (of_decide_eq_true hdigest).symm⟩

/-- **Every step of a case keeps the agreement.** -/
theorem CaseInv.step (h : CaseInv c) (hstep : CaseStep sha256 id c c') : CaseInv c' := by
  cases hstep with
  | evidence => exact ⟨h.unreviewed, h.fixture, h.agrees⟩
  | decided => exact h
  | @reject b reviewer now hs ha hpending =>
    refine ⟨h.unreviewed, h.fixture, fun hs snapshot hsnapshot => ?_⟩
    obtain ⟨a, ha', hagrees⟩ := h.agrees hs snapshot hsnapshot
    obtain rfl : a = b := by simpa using ha'.symm.trans ha
    refine ⟨_, approvals_decideAs ha, ?_⟩
    change ReviewAgrees snapshot _ .rejected c.job
    rw [hagrees.job_of_pending hpending]
    refine reviewAgrees_of_none (List.mem_singleton_self _) ?_
    rintro ⟨happroved, -⟩
    simp at happroved
  | @resolve b snapshot reviewer now hs ha hpending hsnapshot hpatch hkind =>
    refine ⟨h.unreviewed, h.fixture, fun hs snapshot' hsnapshot' => ?_⟩
    obtain rfl : snapshot = snapshot' := Option.some.inj (hsnapshot.symm.trans hsnapshot')
    obtain ⟨a, ha', hagrees⟩ := h.agrees hs snapshot hsnapshot
    obtain rfl : a = b := by simpa using ha'.symm.trans ha
    refine ⟨_, approvals_decideAs ha, ?_⟩
    change ReviewAgrees snapshot _ .resolved c.job
    rw [hagrees.job_of_pending hpending]
    refine reviewAgrees_of_none ?_ ?_
    · rw [hkind]
      exact List.mem_singleton_self _
    · rintro ⟨-, hpull⟩
      rw [hkind] at hpull
      exact absurd hpull (by decide)
  | @enqueue b snapshot reviewer now hs ha hpending hsnapshot hpatch hkind hjob =>
    refine ⟨fun hne => absurd hs hne, fun hnone => ?_, fun _ snapshot' hsnapshot' => ?_⟩
    · have hnone : c.rows.task.snapshot = none := hnone
      rw [hsnapshot] at hnone
      exact absurd hnone (by simp)
    · obtain rfl : snapshot = snapshot' := Option.some.inj (hsnapshot.symm.trans hsnapshot')
      have hpull : snapshot.delivery.kind = .pullRequest := by
        cases hk : snapshot.delivery.kind with
        | patch => exact absurd hk hkind
        | pullRequest => rfl
      obtain ⟨patch, -, hdigest⟩ := patchDigest_of_unchanged hpatch
      refine ⟨_, approvals_decideAs ha, reviewAgrees_of_job rfl hpull ?_ ?_ ?_⟩
      · exact List.mem_cons_self
      · exact jobAgrees_queued rfl (show 0 < 5 by omega)
      · change b.patchDigest = some (b.patchDigest.getD "")
        rw [hdigest]
        rfl
  | @settle w job hs hw hjob hadmits =>
    have hrows := hw.onlyReviewed c.rows
    have hrun : (w.rows c.rows).run = c.rows.run := by rw [hrows.rows]
    have htask : (w.rows c.rows).task.snapshot = c.rows.task.snapshot := by rw [hrows.rows]
    refine ⟨fun hne => absurd (hrun ▸ hs) hne, fun hnone => ?_, fun _ snapshot hsnapshot => ?_⟩
    · have hnone : (w.rows c.rows).task.snapshot = none := hnone
      rw [htask] at hnone
      exact absurd (hjob.symm.trans (h.fixture hnone)) (by simp)
    · have hsnapshot : (w.rows c.rows).task.snapshot = some snapshot := hsnapshot
      rw [htask] at hsnapshot
      obtain ⟨a, ha, hagrees⟩ := h.agrees hs snapshot hsnapshot
      rw [hjob] at hagrees
      exact hagrees.settle hw hadmits ha
  | @hold job job' hjob hholds =>
    have hsome : ∀ {p : Prop}, (p → c.job = none) → ¬ p := by
      intro p hp hpp
      exact absurd (hjob.symm.trans (hp hpp)) (by simp)
    refine ⟨fun hne => absurd hne (hsome h.unreviewed), fun hnone => absurd hnone (hsome h.fixture),
      fun hs snapshot hsnapshot => ?_⟩
    obtain ⟨a, ha, hagrees⟩ := h.agrees hs snapshot hsnapshot
    rw [hjob] at hagrees
    obtain ⟨hstatus, hkind, hagree, hdigest⟩ := hagrees.of_job
    have htask := hagrees.status
    rw [hstatus, hkind] at htask
    exact ⟨a, ha, reviewAgrees_of_job hstatus hkind htask (hagree.hold hholds)
      (hdigest.trans (by rw [hholds.patchDigest]))⟩
  | fixture hs hnone =>
    refine ⟨fun hne => absurd hs hne, h.fixture, fun _ snapshot hsnapshot => ?_⟩
    have hsnapshot : c.rows.task.snapshot = some snapshot := hsnapshot
    rw [hnone] at hsnapshot
    exact absurd hsnapshot (by simp)

/-- A new run is under no review. -/
theorem CaseInv.of_creates {ctx : Context} (h : Creates ctx r) : CaseInv ⟨r, none⟩ := by
  refine ⟨fun _ => rfl, fun _ => rfl, fun hs => ?_⟩
  have hdispatched : r.run.status = .dispatched := h.created.1.status
  exact absurd (hdispatched.symm.trans hs) (by decide)

/-- **In every reachable state every case agrees with itself.** -/
theorem caseInv_of_reachable (hd : (desk sha256).Reachable d) (hc : d.case? id = some c) :
    CaseInv c :=
  case_invariant (P := fun _ c => CaseInv c) (fun h => CaseInv.of_creates h)
    (fun hr hbase h hrow => h.of_rowStep hr hbase hrow) (fun h hstep => h.step hstep) hd hc

/-! ## The queue -/

/-- An execution writes what its delivery came to. -/
def DeskEvent.isOutcome (execution : ℕ) : DeskEvent → Prop
  | .delivered k _ => k = execution
  | .deliveryFailed k _ => k = execution
  | _ => False

/-- A transaction on a job found it there, under its condition. -/
theorem Desk.write_eq_some {j : ℕ} {w : JobWrite} {d' : Desk} (h : d.write j w = some d') :
    ∃ job, d.jobs[j]? = some job ∧ w.admits job := by
  simp only [Desk.write, Option.bind_eq_bind, Option.bind_eq_some_iff, Option.guard_eq_some'] at h
  obtain ⟨job, hj, _, hadmits, -⟩ := h
  exact ⟨job, hj, hadmits⟩

/-- **An outcome is written under the execution's own lease.** -/
theorem outcome_held {execution j : ℕ} {token : LeaseToken} {e : DeskEvent}
    (hexecution : d.executions[execution]? = some (j, token)) (he : e.isOutcome execution)
    (hstep : (desk sha256).step d e ≠ d) :
    ∃ job, d.jobs[j]? = some job ∧ job.status = .running ∧ job.leaseToken = some token := by
  have hheld : ∀ job, heldBy token job → job.status = .running ∧ job.leaseToken = some token := by
    intro job hheld
    simp only [heldBy, Bool.and_eq_true, decide_eq_true_eq] at hheld
    exact hheld.symm
  rcases desk_step sha256 d e with hcommit | hsame
  · cases e with
    | delivered k url =>
      obtain rfl : k = execution := he
      simp only [Desk.commit?, Desk.delivered?, hexecution, Option.bind_eq_bind,
        Option.bind_some] at hcommit
      obtain ⟨job, hj, hadmits⟩ := Desk.write_eq_some hcommit
      exact ⟨job, hj, hheld job hadmits⟩
    | deliveryFailed k error =>
      obtain rfl : k = execution := he
      simp only [Desk.commit?, Desk.deliveryFailed?, hexecution, Option.bind_eq_bind,
        Option.bind_some] at hcommit
      obtain ⟨job, hj, hadmits⟩ := Desk.write_eq_some hcommit
      exact ⟨job, hj, hheld job hadmits⟩
    | _ => exact absurd he (by simp [DeskEvent.isOutcome])
  · exact absurd hsame hstep

/-- The run, the approval and the task of a job. -/
theorem job_agrees (hd : (desk sha256).Reachable d) {job : DeliveryJob} (hjob : job ∈ d.jobs) :
    ∃ r a, d.row? job.approvalId = some r ∧ r.approvals = [a] ∧ a.status = .approved ∧
      JobAgrees job a r.task.status ∧ a.patchDigest = some job.patchDigest := by
  have hinv := deskInv_of_reachable hd
  obtain ⟨j, hj⟩ := List.getElem?_of_mem hjob
  obtain ⟨r, hr, hs, hcase⟩ := hinv.of_job hj
  have hcaseInv := caseInv_of_reachable hd hcase
  obtain ⟨snapshot, hsnapshot⟩ : ∃ snapshot, r.task.snapshot = some snapshot := by
    by_contra hnone
    have hnone : r.task.snapshot = none := by
      rw [Option.eq_none_iff_forall_ne_some]
      exact fun s hs => hnone ⟨s, hs⟩
    exact absurd (hcaseInv.fixture hnone) (by simp)
  obtain ⟨a, ha, hagrees⟩ := hcaseInv.agrees hs snapshot hsnapshot
  obtain ⟨hstatus, -, hagree, hdigest⟩ := hagrees.of_job
  exact ⟨r, a, hr, ha, hstatus, hagree, hdigest⟩

/-- **The delivery queue agrees with the task.** In every reachable state a
job that waits or executes has its task approved, one that succeeded has
its pull request created, under the job's own URL, and one that stopped has
it failed; a job in the queue can be claimed at any time; and an execution
writes its outcome only while the job runs under its own token. -/
theorem queue_agrees (sha256 : String → String) (es : List DeskEvent) :
    (∀ job ∈ ((desk sha256).run es).jobs, ∃ (r : RunRows) (a : Approval),
      ((desk sha256).run es).row? job.approvalId = some r ∧ r.approvals = [a] ∧
      (job.status = .queued ∨ job.status = .running → r.task.status = .approved) ∧
      (job.status = .succeeded → r.task.status = .prCreated ∧ a.prUrl = job.prUrl) ∧
      (job.status = .failed ∨ job.status = .needsAttention → r.task.status = .prFailed) ∧
      (job.status = .queued → job.attempts < 5 ∧ ∀ now, claimable now job)) ∧
    ∀ (execution j : ℕ) (token : LeaseToken),
      ((desk sha256).run es).executions[execution]? = some (j, token) →
      ∀ e : DeskEvent, e.isOutcome execution →
        (desk sha256).run (es ++ [e]) ≠ (desk sha256).run es →
        ∃ job, ((desk sha256).run es).jobs[j]? = some job ∧ job.status = .running ∧
          job.leaseToken = some token := by
  refine ⟨fun job hjob => ?_, fun execution j token hexecution e he hstep => ?_⟩
  · obtain ⟨r, a, hr, ha, -, hagree, -⟩ := job_agrees ((desk sha256).reachable_run es) hjob
    refine ⟨r, a, hr, ha, hagree.waiting, hagree.succeeded, hagree.stopped, fun hqueued => ?_⟩
    have hlt := hagree.claimable hqueued
    refine ⟨hlt, fun now => ?_⟩
    simp [claimable, hlt, hqueued]
  · rw [Machine.run_concat] at hstep
    exact outcome_held hexecution he hstep

/-- A digest that tells different texts apart. -/
def plainDigest : String → String := fun text => text

/-- A run that was completed with a patch and approved; its job was claimed
once. -/
def claimedDelivery : List DeskEvent :=
  completedRun.map .plane ++ [
    .decide 4000 0 .approved none 3 3,
    .claim 5000 5000 11 1]

/-- The first execution runs out of time, a second one takes the job over
and delivers, and the first one comes back with its own outcome. -/
def takenOverDelivery : List DeskEvent :=
  claimedDelivery ++ [
    .claim 605001 605001 12 2,
    .delivered 1 "https://example.test/pull/1",
    .deliveryFailed 0 .other]

/-- The job has succeeded, the task's pull request is created, and the
first execution could not write its failure. -/
theorem queue_agrees_of_takenOver :
    ∃ job ∈ ((desk plainDigest).run takenOverDelivery).jobs, job.status = .succeeded ∧
      (∃ (r : RunRows) (a : Approval),
        ((desk plainDigest).run takenOverDelivery).row? job.approvalId = some r ∧ r.approvals = [a] ∧
        r.task.status = .prCreated ∧ a.prUrl = job.prUrl) ∧
      ∃ job, ((desk plainDigest).run claimedDelivery).jobs[0]? = some job ∧ job.status = .running ∧
        job.leaseToken = some 11 := by
  obtain ⟨job, hjob⟩ : ∃ job, ((desk plainDigest).run takenOverDelivery).jobs[0]? = some job := ⟨_, rfl⟩
  have hstatus : job.status = .succeeded := by
    have : ((desk plainDigest).run takenOverDelivery).jobs[0]?.map (·.status) = some .succeeded := by decide
    rw [hjob] at this
    exact Option.some.inj this
  have hmem := List.mem_of_getElem? hjob
  obtain ⟨r, a, hr, ha, -, hsucceeded, -⟩ := (queue_agrees plainDigest takenOverDelivery).1 job hmem
  refine ⟨job, hmem, hstatus, ⟨r, a, hr, ha, hsucceeded hstatus⟩, ?_⟩
  refine (queue_agrees plainDigest claimedDelivery).2 0 0 11 (by decide) (.deliveryFailed 0 .other) rfl ?_
  intro hsame
  have hjobs := congrArg (fun d : Desk => d.jobs[0]?.map (·.status)) hsame
  exact absurd hjobs (by decide)

end ControlPlane

end AgentReliability
