import AgentReliability.ControlPlane.StatusTrace
import AgentReliability.ControlPlane.FrozenInput
import AgentReliability.ControlPlane.DeliveryQueue
/-!
# Which status writes are legal transitions

The tables say which status may follow which, and `transitionRun` and
`transitionTask` check them. The raw updates of the run control, of the
reviews and of the deliveries do not. `Desk.Guarded` is the condition under
which their writes are along an edge all the same: it leaves out a resume,
the approval of a patch that is not delivered as a pull request, and an
update of a fixture task that another review has written since the status
was read that the update goes by.
-/

namespace AgentReliability

namespace ControlPlane

variable {sha256 : String → String} {id : RunId} {d d' : Desk} {r r' seen : RunRows}

/-! ## The writes of a request -/

/-- The status writes of a request that commits on the rows of its run. -/
def Request.statusWrites (s : State) (ctx : Context) (r : RunRows) : Request → List StatusWrite
  | .claim _ _ _ => claimWrites r
  | .complete id _ outcome _ readAt =>
    match s.read readAt id with
    | some (a, seen) => completeWrites ctx seen id.index a.no outcome r
    | none => []
  | .leaseExpired id readAt =>
    match s.read readAt id with
    | some (a, seen) => leaseExpiredWrites ctx seen id.index a.no r
    | none => []
  | .pause id _ _ _ => pauseWrites id.index r
  | .pauseRun runId readAt =>
    match (s.runAt readAt runId).bind executingAttempt with
    | some (i, _) => pauseWrites i r
    | none => []
  | .cancel _ => cancelWrites r
  | .resume _ => resumeWrites r
  | _ => []

/-- A person resumes the run. -/
def Request.isResume : Request → Bool
  | .resume _ => true
  | _ => false

/-- **The writes of a request are its own**, and but for a resume they are
lawful. -/
theorem Captures.request_writes {s : State} (h : Captures s) {env : Env} {req : Request}
    {tx : Transaction} (hprep : req.prepare s env = .ok (some tx))
    (hr : s.db.runs[tx.runId]? = some r) (horder : Orderly r)
    (hbody : tx.body (s.db.context env tx.runId) r = .ok r') :
    Traces (req.statusWrites s (s.db.context env tx.runId) r) (some r.statuses)
        (some r'.statuses) ∧
      (req.isResume = false →
        ∀ w ∈ req.statusWrites s (s.db.context env tx.runId) r, w.Legal) := by
  have hlawful : ∀ {ws : List StatusWrite}, Lawful ws r r' →
      Traces ws (some r.statuses) (some r'.statuses) ∧
        (req.isResume = false → ∀ w ∈ ws, w.Legal) :=
    fun h => ⟨h.traces, fun _ => h.legal⟩
  cases Request.goesTo hprep with
  | claim => exact hlawful (lawful_claimAttempt hbody)
  | heartbeat => exact hlawful (.nil (statuses_of_core (heartbeat_core hbody)))
  | complete hlease hread =>
    simp only [Request.statusWrites, hread]
    exact hlawful (lawful_completeAttempt horder (h.captured hread hr) hbody)
  | saveCheckpoint => exact hlawful (.nil (statuses_saveCheckpoint hbody))
  | leaseExpired hread =>
    simp only [Request.statusWrites, hread]
    exact hlawful (lawful_handleLeaseExpired horder (h.captured hread hr) hbody)
  | phase => exact hlawful (.nil (statuses_of_core (phase_core hbody)))
  | pause => exact hlawful (lawful_pause horder hbody)
  | @pauseRun runId readAt i a hseen =>
    have hpause : pause (s.db.context env runId) i a.leaseToken "PAUSED_BY_USER" none r = .ok r' :=
      hbody
    simp only [Request.statusWrites, hseen]
    exact hlawful (lawful_pause horder hpause)
  | cancel => exact hlawful (lawful_cancel horder hbody)
  | resume =>
    exact ⟨traces_resume hbody, fun hresume => absurd hresume (by simp [Request.isResume])⟩
  | reserve => exact hlawful (.nil (statuses_reserve hbody))
  | settle => exact hlawful (.nil (statuses_settle hbody))
  | ingest => exact hlawful (.nil (statuses_of_core (ingest_core hbody)))
  | markPublished => exact hlawful (.nil (statuses_of_core (markPublished_core hbody)))
  | countFailure =>
    refine hlawful (.nil (statuses_of_core (updateMessage_core ?_ hbody)))
    exact fun _ => rfl
  | republish =>
    refine hlawful (.nil (statuses_of_core (updateMessage_core ?_ hbody)))
    exact fun _ => rfl

/-! ## The writes of an event -/

/-- The status columns of a run. -/
def State.statuses? (s : State) (id : RunId) : Option Statuses :=
  (s.db.runs[id]?).map RunRows.statuses

/-- **The status writes an event commits on a run.** -/
def Event.writesOn (s : State) (id : RunId) (e : Event) : List StatusWrite :=
  if (e.commit? s).isSome then
    match e with
    | .createTask _ _ => if id = s.db.runs.length then createTaskWrites else []
    | .confirm _ _ _ => if id = s.db.runs.length then confirmWrites else []
    | .request env req =>
      if id = req.runId then
        ((s.db.runs[req.runId]?).map fun r =>
          req.statusWrites s (s.db.context env req.runId) r).getD []
      else []
    | _ => []
  else []

def Event.isResume : Event → Bool
  | .request _ req => req.isResume
  | _ => false

section Table

variable {runs : List RunRows} {j : RunId} {ws : List StatusWrite}

/-- A new run is written when it is created. -/
theorem traces_created (h : Traces ws none (some r.statuses)) (id : RunId) :
    Traces (if id = runs.length then ws else []) ((runs[id]?).map RunRows.statuses)
      (((runs ++ [r])[id]?).map RunRows.statuses) := by
  rcases Nat.lt_trichotomy id runs.length with hlt | rfl | hgt
  · rw [if_neg hlt.ne, List.getElem?_append_left hlt]
    exact .nil _
  · rw [if_pos rfl, List.getElem?_concat_length, List.getElem?_eq_none_iff.mpr le_rfl]
    exact h
  · have hlength : (runs ++ [r]).length ≤ id := by
      rw [List.length_append, List.length_singleton]
      omega
    rw [if_neg hgt.ne', List.getElem?_eq_none hgt.le, List.getElem?_eq_none hlength]
    exact .nil _

/-- A transaction on one run writes the columns of that run. -/
theorem traces_wrote (hr : runs[j]? = some r)
    (h : Traces ws (some r.statuses) (some r'.statuses)) (id : RunId) :
    Traces (if id = j then ws else []) ((runs[id]?).map RunRows.statuses)
      (((runs.set j r')[id]?).map RunRows.statuses) := by
  have hlt : j < runs.length := (List.getElem?_eq_some_iff.mp hr).1
  by_cases hid : id = j
  · rw [if_pos hid, hid, hr, List.getElem?_set_self hlt]
    exact h
  · rw [if_neg hid, List.getElem?_set_ne fun he => hid he.symm]
    exact .nil _

theorem legal_ite {p : Prop} [Decidable p] (h : ∀ w ∈ ws, w.Legal) :
    ∀ w ∈ if p then ws else [], w.Legal := by
  intro w hw
  split at hw
  · exact h w hw
  · exact absurd hw List.not_mem_nil

end Table

/-- **The writes of a committed event are its own, on every run**, and but
for a resume they are along the edges. -/
theorem Captures.event_writes {s : State} (h : Captures s)
    (horder : ∀ {k : RunId} {x : RunRows}, s.db.runs[k]? = some x → Orderly x) {e : Event}
    {db : Database} (hc : e.commit? s = some db) (id : RunId) :
    Traces (e.writesOn s id) (s.statuses? id) ((db.runs[id]?).map RunRows.statuses) ∧
      (e.isResume = false → ∀ w ∈ e.writesOn s id, w.Legal) := by
  unfold Event.writesOn
  rw [hc, if_pos (by rfl)]
  cases e with
  | createTask env input =>
    obtain ⟨r, hr, rfl⟩ := Option.map_eq_some_iff.mp hc
    exact ⟨traces_created (traces_createTask (toOption_eq_some.mp hr)) id,
      fun _ => legal_ite (by decide)⟩
  | confirm env input readAt =>
    obtain ⟨r, hr, rfl⟩ := Option.map_eq_some_iff.mp hc
    unfold confirmed? at hr
    split at hr
    · exact absurd hr (by simp)
    · split at hr
      · rename_i rows hconfirm
        obtain rfl := Option.some.inj hr
        obtain rfl := confirm_created hconfirm
        exact ⟨traces_created traces_confirm id, fun _ => legal_ite (by decide)⟩
      · exact absurd hr (by simp)
  | request env req =>
    obtain ⟨tx, r, r', hprep, hr, hbody, rfl⟩ := Request.commit_eq_some hc
    obtain ⟨htraces, hlegal⟩ := h.request_writes hprep hr (horder hr) hbody
    simp only [← Request.runId_of_prepare hprep, hr, Option.map_some, Option.getD_some]
    exact ⟨traces_wrote hr htraces id, fun hresume => legal_ite (hlegal hresume)⟩
  | environment env eid token fingerprint imageId log =>
    obtain ⟨db', hdb', rfl⟩ := Option.map_eq_some_iff.mp hc
    rw [toOption_eq_some] at hdb'
    simp only [Database.transact, bind_eq_ok, orThrow_eq_ok, pure_eq_ok] at hdb'
    obtain ⟨r, hr, r', hbody, rfl⟩ := hdb'
    have hsame : Lawful [] r r' := .nil (statuses_of_core (environment_core hbody))
    have htraces := traces_wrote hr hsame.traces id
    rw [ite_self] at htraces
    exact ⟨htraces, fun _ w hw => absurd hw List.not_mem_nil⟩
  | publish => exact absurd hc (by simp [Event.commit?])

/-! ## The writes of the desk -/

/-- `DeliveryService.approve`. -/
def approveWrites (r : RunRows) : List StatusWrite :=
  match r.approval?, r.task.snapshot with
  | some a, some snapshot =>
    if a.status = .approved then []
    else [.task r.task.status (if snapshot.delivery.kind = .patch then .resolved else .approved)]
  | _, _ => []

/-- `DeliveryService.reject`. -/
def rejectWrites (r : RunRows) : List StatusWrite :=
  match r.approval? with
  | some a => if a.status = .rejected then [] else [.task r.task.status .rejected]
  | none => []

/-- `ApprovalService.decide`. -/
def decideWrites (decision : Decision) (seenTask : Task) (r : RunRows) : List StatusWrite :=
  if seenTask.snapshot.isSome then
    match decision with
    | .approved => approveWrites r
    | .rejected => rejectWrites r
  else [.task r.task.status decision.task]

/-- The status `createPr` leaves the task in. -/
def madeStatus (made : Except String String) : TaskStatus :=
  match made with
  | .ok _ => .prCreated
  | .error _ => .prFailed

namespace Desk

variable (d : Desk)

def statuses? (id : RunId) : Option Statuses := (d.row? id).map RunRows.statuses

/-- An update of the task of one run. -/
def taskWrite (runId : RunId) (target : TaskStatus) (id : RunId) : List StatusWrite :=
  if id = runId then ((d.row? runId).map fun r => [.task r.task.status target]).getD [] else []

/-- An update of the task of a job. -/
def jobWrite (j : ℕ) (target : TaskStatus) (id : RunId) : List StatusWrite :=
  (d.jobs[j]?).elim [] fun job => d.taskWrite job.approvalId target id

/-- The job of a run in a version of the table. -/
def jobIndex? (runId : RunId) (jobAt : ℕ) : Option ℕ :=
  (d.jobsAt jobAt).bind fun jobs => jobs.findIdx? fun job => job.approvalId = runId

/-- **The status writes an event commits on a run.** -/
def writesOn (sha256 : String → String) (id : RunId) (e : DeskEvent) : List StatusWrite :=
  if (d.commit? sha256 e).isSome then
    match e with
    | .plane e => (e.withSha sha256).writesOn d.plane id
    | .decide _ runId decision _ _ taskAt =>
      match d.plane.runAt taskAt runId, d.row? runId with
      | some seenRows, some r => if id = runId then decideWrites decision seenRows.task r else []
      | _, _ => []
    | .retryPr runId taskAt jobAt =>
      (d.plane.runAt taskAt runId).elim [] fun seenRows =>
        if seenRows.task.snapshot.isSome then
          (d.jobIndex? runId jobAt).elim [] fun j => d.jobWrite j .approved id
        else d.taskWrite runId .approved id
    | .createPr call made =>
      (d.creations[call]?).elim [] fun runId => d.taskWrite runId (madeStatus made) id
    | .exhaust _ _ j _ => d.jobWrite j .prFailed id
    | .delivered execution _ =>
      (d.executions[execution]?).elim [] fun x => d.jobWrite x.1 .prCreated id
    | .deliveryFailed execution _ =>
      (d.executions[execution]?).elim [] fun x => d.jobWrite x.1 .prFailed id
    | _ => []
  else []

end Desk

/-! ## The condition -/

/-- What `resume` checks, and the number of its event is free: a resume of
such a run commits. -/
structure Resumable (ctx : Context) (r : RunRows) : Prop where
  interrupted : r.run.status = .interrupted
  snapshot : r.task.snapshot.isSome
  budget : r.run.usedTokens < r.run.budgetTokens ∧ r.run.usedSeconds < r.run.budgetSeconds ∧
    r.attempts.length < r.run.maxAttempts ∧ r.unsettled = false ∧ expired ctx r.run = false
  contract : r.task.attentionReason.getD "" ∉ contractReasons
  event : ctx.keyTaken (.platform ctx.runId (r.run.lastSequence + 1)) = false ∧
    ∀ e ∈ r.traceEvents, e.idempotencyKey ≠ .platform ctx.runId (r.run.lastSequence + 1) ∧
      e.runSequence ≠ r.run.lastSequence + 1

/-- The approval is open, on a patch that is not delivered as a pull
request. -/
def AwaitsPatch (sha256 : String → String) (r : RunRows) : Prop :=
  ∃ a snapshot, r.approval? = some a ∧ a.status = .pending ∧ r.task.snapshot = some snapshot ∧
    DeliveryService.patchUnchanged sha256 r a ∧ snapshot.delivery.kind = .patch

/-- What a decision is guarded by, on what it read and the rows now: a
fixture task it goes on to update still has the status it was checked
with. -/
def GuardedDecision (sha256 : String → String) (decision : Decision) (seen : Approval)
    (seenTask : Task) (r : RunRows) : Prop :=
  (seenTask.snapshot.isSome → decision = .approved → ¬ AwaitsPatch sha256 r) ∧
    (seenTask.snapshot = none → seen.status = .pending →
      decision.task ∈ seenTask.status.transitions → r.task.status = seenTask.status)

/-- What `ApprovalService.decide` reads before its update. -/
def Desk.seen? (d : Desk) (runId : RunId) (approvalAt taskAt : ℕ) : Option (Approval × Task) := do
  guard (approvalAt ≤ taskAt)
  let before ← d.plane.runAt approvalAt runId
  let seen ← before.approval?
  let seenRows ← d.plane.runAt taskAt runId
  some (seen, seenRows.task)

/-- No other review has taken the task of a run out of a status. -/
def Desk.StillIn (d : Desk) (runId : RunId) (status : TaskStatus) : Prop :=
  ∀ r, d.row? runId = some r → r.task.status = status

/-- **The writes that no table allows are not made.** A run that can be
resumed is not, a patch that is only to be kept is not approved, and no
other review comes between the status an update of a fixture goes by and
the update: what `decide` or `retryPr` read, and for the end of `createPr`
the status its call was made in. -/
def Desk.Guarded (sha256 : String → String) (d : Desk) : DeskEvent → Prop
  | .plane (.request env (.resume runId)) =>
    ∀ r, d.row? runId = some r → ¬ Resumable (d.plane.db.context { env with sha256 } runId) r
  | .decide _ runId decision _ approvalAt taskAt =>
    ∀ seen seenTask r, d.seen? runId approvalAt taskAt = some (seen, seenTask) →
      d.row? runId = some r → GuardedDecision sha256 decision seen seenTask r
  | .retryPr runId taskAt _ =>
    ∀ seenRows, d.plane.runAt taskAt runId = some seenRows → seenRows.approval?.isSome →
      seenRows.task.snapshot = none → seenRows.task.status = .prFailed → d.StillIn runId .prFailed
  | .createPr call _ => ∀ runId ∈ d.creations[call]?, d.StillIn runId .approved
  | _ => True

/-! ## Guarded writes are along the edges -/

theorem orderly_of_base (h : r.base.core.StatusInv) : Orderly r := by
  by_cases hs : r.run.status = .succeeded
  · have hidle := idle_of_base h hs
    refine ⟨fun ha hopen => ?_, fun hne => absurd hs hne⟩
    obtain ⟨hrunning, hclaimed⟩ := hidle.getElem? ha
    exact absurd hopen (not_or.mpr ⟨hrunning, hclaimed⟩)
  · exact orderly_of_statusInv (statusInv_of_base h hs)

section

variable {runId : RunId} {target : TaskStatus}

/-- A transaction on one run writes the columns of that run. -/
theorem traces_row {ws : List StatusWrite} (hr : d.row? runId = some r)
    (hrow : ∀ k, d'.row? k = if k = runId then some r' else d.row? k)
    (h : Traces ws (some r.statuses) (some r'.statuses)) (id : RunId) :
    Traces (if id = runId then ws else []) (d.statuses? id) (d'.statuses? id) := by
  unfold Desk.statuses?
  rw [hrow]
  by_cases hid : id = runId
  · rw [if_pos hid, if_pos hid, hid, hr]
    exact h
  · rw [if_neg hid, if_neg hid]
    exact .nil _

/-- An update of a task takes the columns of its run along. -/
theorem traces_taskWrite (hr : d.row? runId = some r)
    (hrow : ∀ k, d'.row? k = if k = runId then some r' else d.row? k)
    (h : r'.statuses = { r.statuses with task := target }) (id : RunId) :
    Traces (d.taskWrite runId target id) (d.statuses? id) (d'.statuses? id) := by
  unfold Desk.taskWrite
  rw [hr]
  refine traces_row hr hrow ?_ id
  rw [h]
  exact (Takes.task r.statuses target).traces

/-- It is along an edge if the update is. -/
theorem legal_taskWrite (h : ∀ r, d.row? runId = some r → target ∈ r.task.status.transitions)
    (id : RunId) : ∀ w ∈ d.taskWrite runId target id, w.Legal := by
  intro w hw
  unfold Desk.taskWrite at hw
  split at hw
  · rcases hr : d.row? runId with _ | r
    · rw [hr] at hw
      exact absurd hw List.not_mem_nil
    · rw [hr] at hw
      rw [List.mem_singleton.mp hw]
      exact .inr (h r hr)
  · exact absurd hw List.not_mem_nil

end

/-- The rows after a transaction on a job. -/
theorem Desk.write_rows {j : ℕ} {w : DeliveryService.JobWrite} (h : d.write j w = some d') :
    ∃ job r, d.jobs[j]? = some job ∧ w.admits job ∧ d.row? job.approvalId = some r ∧
      ∀ k, d'.row? k = if k = job.approvalId then some (w.rows r) else d.row? k := by
  simp only [Desk.write, Option.bind_eq_bind, Option.bind_eq_some_iff, Option.guard_eq_some',
    Option.some.injEq] at h
  obtain ⟨job, hj, _, hadmits, r, hr, _, -, rfl⟩ := h
  exact ⟨job, r, hj, hadmits, hr, fun k => Desk.row?_setRow hr k⟩

/-- **A transaction on a job moves its task along an edge**, from the
status the job's own goes with. -/
theorem write_lawful (hd : (desk sha256).Reachable d) {j : ℕ} {w : DeliveryService.JobWrite}
    {target : TaskStatus} (hrows : ∀ r, (w.rows r).statuses = { r.statuses with task := target })
    (hedge : ∀ (job : DeliveryJob) (a : Approval) (task : TaskStatus), JobAgrees job a task →
      w.admits job → target ∈ task.transitions)
    (h : d.write j w = some d') (id : RunId) :
    Traces (d.jobWrite j target id) (d.statuses? id) (d'.statuses? id) ∧
      ∀ x ∈ d.jobWrite j target id, x.Legal := by
  obtain ⟨job, r, hj, hadmits, hr, hrow⟩ := Desk.write_rows h
  obtain ⟨r', a, hr', -, -, hagrees, -⟩ := job_agrees hd (List.mem_of_getElem? hj)
  obtain rfl := Option.some.inj (hr.symm.trans hr')
  unfold Desk.jobWrite
  rw [hj]
  refine ⟨traces_taskWrite hr hrow (hrows r) id, legal_taskWrite (fun x hx => ?_) id⟩
  obtain rfl := Option.some.inj (hr.symm.trans hx)
  exact hedge job a _ hagrees hadmits

/-- The update of a job held by an execution finds its task approved. -/
theorem JobAgrees.of_held {job : DeliveryJob} {a : Approval} {task : TaskStatus}
    (h : JobAgrees job a task) {token : LeaseToken}
    (hheld : DeliveryService.heldBy token job = true) : task = .approved := by
  simp only [DeliveryService.heldBy, Bool.and_eq_true, decide_eq_true_eq] at hheld
  exact h.waiting (.inr hheld.2)

/-! ### The decision -/

/-- The task of an open approval awaits it. -/
theorem awaiting_of_pending (hd : (desk sha256).Reachable d) (hr : d.row? id = some r)
    {a : Approval} {snapshot : TaskSnapshot} (ha : r.approval? = some a)
    (hsnapshot : r.task.snapshot = some snapshot) (hpending : a.status = .pending) :
    r.task.status = .awaitingApproval := by
  obtain ⟨hs, happrovals⟩ := (deskInv_of_reachable hd).of_approval hr ha
  obtain ⟨b, hb, hagrees⟩ := (caseInv_of_reachable hd (Desk.case?_of_row hr)).agrees hs snapshot
    hsnapshot
  obtain rfl : b = a := by simpa using hb.symm.trans happrovals
  have hstatus := hagrees.status
  rw [hpending] at hstatus
  exact List.mem_singleton.mp hstatus

/-- `approve`: an approval made before writes nothing, an open one moves
the task. -/
theorem approve_writes {now : Time} {reviewer : Option String} {jobs jobs' : List DeliveryJob}
    (h : DeliveryService.approve sha256 now id reviewer r jobs = .ok (r', jobs')) :
    Traces (approveWrites r) (some r.statuses) (some r'.statuses) ∧
      ∀ w ∈ approveWrites r, ∃ a snapshot, r.approval? = some a ∧ a.status = .pending ∧
        r.task.snapshot = some snapshot ∧ DeliveryService.patchUnchanged sha256 r a ∧
        w = .task r.task.status (if snapshot.delivery.kind = .patch then .resolved else .approved) := by
  simp only [DeliveryService.approve, bind_eq_ok, orThrow_eq_ok] at h
  obtain ⟨a, ha, h⟩ := h
  split at h
  · -- An approval that is repeated is answered from the row.
    rename_i happroved
    have hnone : approveWrites r = [] := by
      unfold approveWrites
      rw [ha]
      cases r.task.snapshot with
      | none => rfl
      | some snapshot => exact if_pos happroved
    simp only [pure_eq_ok, Prod.mk.injEq] at h
    obtain ⟨rfl, rfl⟩ := h
    rw [hnone]
    exact ⟨.nil _, fun w hw => absurd hw List.not_mem_nil⟩
  · rename_i hopen
    simp only [bind_eq_ok, require_eq_ok, orThrow_eq_ok] at h
    obtain ⟨-, hpending, snapshot, hsnapshot, -, hpatch, h⟩ := h
    have hone : approveWrites r =
        [.task r.task.status (if snapshot.delivery.kind = .patch then .resolved else .approved)] := by
      unfold approveWrites
      rw [ha, hsnapshot]
      exact if_neg hopen
    rw [hone]
    refine ⟨?_, fun w hw => ⟨a, snapshot, ha, hpending, hsnapshot, hpatch, List.mem_singleton.mp hw⟩⟩
    split at h
    · rename_i hkind
      simp only [pure_eq_ok, Prod.mk.injEq] at h
      obtain ⟨rfl, -⟩ := h
      rw [if_pos hkind]
      exact (Takes.task r.statuses .resolved).traces
    · rename_i hkind
      simp only [bind_eq_ok, pure_eq_ok, Prod.mk.injEq] at h
      obtain ⟨-, -, rfl, -⟩ := h
      rw [if_neg hkind]
      exact (Takes.task r.statuses .approved).traces

/-- `reject`, likewise. -/
theorem reject_writes {now : Time} {reviewer : Option String}
    (h : DeliveryService.reject now reviewer r = .ok r') :
    Traces (rejectWrites r) (some r.statuses) (some r'.statuses) ∧
      ∀ w ∈ rejectWrites r, ∃ a, r.approval? = some a ∧ a.status = .pending ∧
        w = .task r.task.status .rejected := by
  simp only [DeliveryService.reject, bind_eq_ok, orThrow_eq_ok] at h
  obtain ⟨a, ha, h⟩ := h
  unfold rejectWrites
  rw [ha]
  simp only
  by_cases hrejected : a.status = .rejected
  · rw [if_pos hrejected, pure_eq_ok] at h
    subst h
    rw [if_pos hrejected]
    exact ⟨.nil _, fun w hw => absurd hw List.not_mem_nil⟩
  · rw [if_neg hrejected] at h
    simp only [bind_eq_ok, require_eq_ok, pure_eq_ok] at h
    obtain ⟨-, hpending, rfl⟩ := h
    rw [if_neg hrejected]
    exact ⟨(Takes.task r.statuses .rejected).traces,
      fun w hw => ⟨a, rfl, hpending, List.mem_singleton.mp hw⟩⟩

/-- **A decision** writes its own, and along an edge if it is guarded. -/
theorem decide_writes (hd : (desk sha256).Reachable d) {runId : RunId} {now : Time}
    {decision : Decision} {reviewer : Option String} {approvalAt taskAt : ℕ}
    (h : d.decide? sha256 now runId decision reviewer approvalAt taskAt = some d') :
    ∃ seen seenRows r r', d.seen? runId approvalAt taskAt = some (seen, seenRows.task) ∧
      d.plane.runAt taskAt runId = some seenRows ∧ d.row? runId = some r ∧
      (∀ k, d'.row? k = if k = runId then some r' else d.row? k) ∧
      Traces (decideWrites decision seenRows.task r) (some r.statuses) (some r'.statuses) ∧
      (GuardedDecision sha256 decision seen seenRows.task r →
        ∀ w ∈ decideWrites decision seenRows.task r, w.Legal) := by
  simp only [Desk.decide?, Option.bind_eq_bind, Option.bind_eq_some_iff, Option.guard_eq_some',
    toOption_eq_some, Option.some.injEq] at h
  obtain ⟨_, hle, before, hbefore, seen, hseen, seenRows, hrows, r, hr, ⟨r', jobs⟩, hdecide, rfl⟩ := h
  have hread : d.seen? runId approvalAt taskAt = some (seen, seenRows.task) := by
    simp [Desk.seen?, hle, hbefore, hseen, hrows]
  have hsnapshot := (deskInv_of_reachable hd).snapshot_of_runAt hrows hr
  refine ⟨seen, seenRows, r, r', hread, hrows, hr, fun k => Desk.row?_setRow hr k, ?_⟩
  unfold ApprovalService.decide at hdecide
  unfold decideWrites
  by_cases hsome : seenRows.task.snapshot.isSome = true
  · -- The transaction reads the approval again, and while that is pending the task awaits it.
    rw [if_pos hsome] at hdecide ⊢
    cases decision with
    | approved =>
      obtain ⟨htraces, hwrites⟩ := approve_writes hdecide
      refine ⟨htraces, fun hguarded w hw => ?_⟩
      obtain ⟨a, snapshot, ha, hpending, hsnap, hpatch, rfl⟩ := hwrites w hw
      have hkind : snapshot.delivery.kind ≠ .patch := fun hkind =>
        hguarded.1 hsome rfl ⟨a, snapshot, ha, hpending, hsnap, hpatch, hkind⟩
      rw [if_neg hkind, awaiting_of_pending hd hr ha hsnap hpending]
      decide
    | rejected =>
      simp only [bind_eq_ok, pure_eq_ok, Prod.mk.injEq] at hdecide
      obtain ⟨r₁, hreject, rfl, -⟩ := hdecide
      obtain ⟨htraces, hwrites⟩ := reject_writes hreject
      refine ⟨htraces, fun _ w hw => ?_⟩
      obtain ⟨a, ha, hpending, rfl⟩ := hwrites w hw
      rw [hsnapshot] at hsome
      obtain ⟨snapshot, hsnap⟩ := Option.isSome_iff_exists.mp hsome
      rw [awaiting_of_pending hd hr ha hsnap hpending]
      decide
  · -- A fixture is updated by its id, by the status that was read before.
    rw [if_neg hsome] at hdecide ⊢
    simp only [bind_eq_ok, require_eq_ok, orThrow_eq_ok, pure_eq_ok, Prod.mk.injEq] at hdecide
    obtain ⟨-, hpending, -, hedge, a, -, rfl, -⟩ := hdecide
    refine ⟨(Takes.task r.statuses decision.task).traces, fun hguarded w hw => ?_⟩
    rw [List.mem_singleton.mp hw]
    have hstill := hguarded.2 (Option.not_isSome_iff_eq_none.mp hsome) hpending hedge
    exact .inr (hstill ▸ hedge)

/-! ### Every event -/

/-- **A resume commits only on the runs that can be resumed.** -/
theorem resumable_of_ok {ctx : Context} (h : resume ctx r = .ok r') : Resumable ctx r := by
  simp only [resume, controlEvent, recordEvent, bind_eq_ok, require_eq_ok, orThrow_eq_ok] at h
  obtain ⟨-, hstatus, snapshot, hsnapshot, -, hbudget, -, hcontract, -, hevent, -⟩ := h
  exact ⟨hstatus, Option.isSome_iff_exists.mpr ⟨snapshot, hsnapshot⟩, hbudget, hcontract, hevent⟩

/-- A request that resumes found its run resumable. -/
theorem resumable_of_commit {s : State} {env : Env} {runId : RunId} {db : Database}
    (hc : (Request.resume runId).commit? s env = some db) :
    ∃ r, s.db.runs[runId]? = some r ∧ Resumable (s.db.context env runId) r := by
  obtain ⟨tx, r, r', hprep, hr, hbody, -⟩ := Request.commit_eq_some hc
  simp only [Request.prepare, pure_eq_ok, Option.some.injEq] at hprep
  subst hprep
  exact ⟨r, hr, resumable_of_ok hbody⟩

/-- Writes of an event that are its own, and along the edges where it is
guarded. -/
structure Accounted (sha256 : String → String) (d d' : Desk) (e : DeskEvent) (id : RunId)
    (ws : List StatusWrite) : Prop where
  traces : Traces ws (d.statuses? id) (d'.statuses? id)
  legal : d.Guarded sha256 e → ∀ w ∈ ws, w.Legal

/-- An event that leaves the rows of every run as they are. -/
theorem Accounted.nothing {e : DeskEvent} (h : ∀ k, d'.row? k = d.row? k) (id : RunId) :
    Accounted sha256 d d' e id [] := by
  refine ⟨?_, fun _ w hw => absurd hw List.not_mem_nil⟩
  unfold Desk.statuses?
  rw [h]
  exact .nil _

/-- An event that only resumes is guarded by not being made. -/
theorem not_isResume_of_guarded {e : Event} {db : Database}
    (hc : (e.withSha sha256).commit? d.plane = some db) (h : d.Guarded sha256 (.plane e)) :
    (e.withSha sha256).isResume = false := by
  cases e with
  | request env req =>
    cases req with
    | resume runId =>
      obtain ⟨r, hr, hresumable⟩ := resumable_of_commit hc
      exact absurd hresumable (h r hr)
    | _ => rfl
  | _ => rfl

/-- **An event of the platform.** -/
theorem plane_writes (hinv : DeskInv d) (e : Event) (id : RunId) :
    Accounted sha256 d { d with plane := step d.plane (e.withSha sha256) } (.plane e) id
      ((e.withSha sha256).writesOn d.plane id) := by
  cases hcommit : (e.withSha sha256).commit? d.plane with
  | none =>
    have hdb : (step d.plane (e.withSha sha256)).db = d.plane.db := by
      unfold step
      rw [hcommit]
    have hwrites : (e.withSha sha256).writesOn d.plane id = [] := by
      unfold Event.writesOn
      rw [hcommit]
      rfl
    rw [hwrites]
    refine .nothing (fun k => ?_) id
    unfold Desk.row?
    rw [hdb]
  | some db =>
    have hdb : (step d.plane (e.withSha sha256)).db = db := by
      unfold step
      rw [hcommit]
      rfl
    have hwrites := (captures_of_base hinv.sound).event_writes
      (fun hr => orderly_of_base (hinv.sound.reviewed hr).1) hcommit id
    rw [← hdb] at hwrites
    exact ⟨hwrites.1, fun hguarded => hwrites.2 (not_isResume_of_guarded hcommit hguarded)⟩

/-- **A report that is retained** writes no status. -/
theorem evidence_writes {attempt : AttemptId} {content : String} {e : DeskEvent}
    (hc : d.evidence? sha256 attempt content = some d') (id : RunId) :
    Accounted sha256 d d' e id [] := by
  simp only [Desk.evidence?, Option.bind_eq_bind, Option.bind_eq_some_iff, Option.some.injEq] at hc
  obtain ⟨r, hr, _, -, _, -, rfl⟩ := hc
  have hsame : Traces [] (some r.statuses)
      (some (r.createArtifact (evidenceArtifact attempt content)).statuses) := .nil _
  have htraces := traces_row hr (fun k => Desk.row?_setRow hr k) hsame id
  rw [ite_self] at htraces
  exact ⟨htraces, fun _ w hw => absurd hw List.not_mem_nil⟩

/-- **`retryPr` of a snapshot task**: its job goes back to the queue. -/
theorem retryJob_writes (hd : (desk sha256).Reachable d) {j : ℕ} {e : DeskEvent}
    (hc : d.write j DeliveryService.retry = some d') (id : RunId) :
    Accounted sha256 d d' e id (d.jobWrite j .approved id) := by
  have hedge : ∀ (job : DeliveryJob) (a : Approval) (task : TaskStatus), JobAgrees job a task →
      DeliveryService.retry.admits job → .approved ∈ task.transitions := by
    intro job a task hagrees hadmits
    simp only [DeliveryService.retry, Bool.and_eq_true, decide_eq_true_eq] at hadmits
    rw [hagrees.stopped (.inl hadmits.1)]
    decide
  obtain ⟨htraces, hlegal⟩ := write_lawful hd (fun _ => rfl) hedge hc id
  exact ⟨htraces, fun _ => hlegal⟩

/-- **The writes of `retryPr`.** -/
theorem retryPr_writes (hd : (desk sha256).Reachable d) {runId : RunId} {taskAt jobAt : ℕ}
    (hc : d.retryPr? runId taskAt jobAt = some d') (id : RunId) :
    ∃ seenRows, d.plane.runAt taskAt runId = some seenRows ∧
      Accounted sha256 d d' (.retryPr runId taskAt jobAt) id
        (if seenRows.task.snapshot.isSome then
          (d.jobIndex? runId jobAt).elim [] fun j => d.jobWrite j .approved id
        else d.taskWrite runId .approved id) := by
  simp only [Desk.retryPr?, Option.bind_eq_bind, Option.bind_eq_some_iff] at hc
  obtain ⟨seenRows, hseen, seen, happroval, hc⟩ := hc
  refine ⟨seenRows, hseen, ?_⟩
  split at hc
  · rename_i hsome
    simp only [Option.bind_eq_some_iff] at hc
    obtain ⟨jobs, hjobs, j, hj, job, -, _, -, hc⟩ := hc
    have hindex : d.jobIndex? runId jobAt = some j := by
      unfold Desk.jobIndex?
      rw [hjobs]
      exact hj
    rw [if_pos hsome, hindex]
    exact retryJob_writes hd hc id
  · rename_i hsome
    simp only [Option.bind_eq_some_iff, Option.guard_eq_some', Option.some.injEq] at hc
    obtain ⟨_, hfailed, r, hr, rfl⟩ := hc
    rw [if_neg hsome]
    have hset : (r.setTask .approved).statuses = { r.statuses with task := .approved } := rfl
    refine ⟨traces_taskWrite hr (fun k => Desk.row?_setRow hr k) hset id, fun hguarded => ?_⟩
    have hstill := hguarded seenRows hseen (Option.isSome_iff_exists.mpr ⟨seen, happroval⟩)
      (Option.not_isSome_iff_eq_none.mp hsome) hfailed
    refine legal_taskWrite (fun x hx => ?_) id
    rw [hstill x hx]
    decide

/-- **The end of `createPr`.** -/
theorem createPr_writes {call : ℕ} {made : Except String String}
    (hc : d.createPr? call made = some d') (id : RunId) :
    ∃ runId, d.creations[call]? = some runId ∧
      Accounted sha256 d d' (.createPr call made) id (d.taskWrite runId (madeStatus made) id) := by
  simp only [Desk.createPr?, Option.bind_eq_bind, Option.bind_eq_some_iff, Option.some.injEq] at hc
  obtain ⟨runId, hcall, r, hr, _, -, rfl⟩ := hc
  refine ⟨runId, hcall, traces_taskWrite hr (fun k => Desk.row?_setRow hr k) ?_ id,
    fun hguarded => legal_taskWrite (fun x hx => ?_) id⟩
  · cases made <;> rfl
  · rw [hguarded runId hcall x hx]
    cases made with
    | ok url => exact List.mem_cons_self
    | error message => exact List.mem_cons_of_mem _ List.mem_cons_self

/-- **A job that is given up.** -/
theorem exhaust_writes (hd : (desk sha256).Reachable d) {readNow now : Time} {j jobAt : ℕ}
    {e : DeskEvent} (hc : d.exhaust? readNow now j jobAt = some d') (id : RunId) :
    Accounted sha256 d d' e id (d.jobWrite j .prFailed id) := by
  simp only [Desk.exhaust?, Option.bind_eq_bind, Option.bind_eq_some_iff] at hc
  obtain ⟨jobs, -, job, -, _, -, hc⟩ := hc
  have hedge : ∀ (job : DeliveryJob) (a : Approval) (task : TaskStatus), JobAgrees job a task →
      (DeliveryService.exhaust now).admits job → .prFailed ∈ task.transitions := by
    intro job a task hagrees hadmits
    simp only [DeliveryService.exhaust, Bool.and_eq_true, decide_eq_true_eq] at hadmits
    rw [hagrees.waiting (.inr hadmits.1)]
    decide
  obtain ⟨htraces, hlegal⟩ := write_lawful hd (fun _ => rfl) hedge hc id
  exact ⟨htraces, fun _ => hlegal⟩

/-- **The end of a delivery**, on the job its execution still holds. -/
theorem execution_writes (hd : (desk sha256).Reachable d) {j : ℕ} {token : LeaseToken}
    {w : DeliveryService.JobWrite} {target : TaskStatus} {e : DeskEvent}
    (hadmits : ∀ job, w.admits job → DeliveryService.heldBy token job = true)
    (hrows : ∀ r, (w.rows r).statuses = { r.statuses with task := target })
    (htarget : target ∈ TaskStatus.approved.transitions) (hc : d.write j w = some d') (id : RunId) :
    Accounted sha256 d d' e id (d.jobWrite j target id) := by
  obtain ⟨htraces, hlegal⟩ := write_lawful hd hrows
    (fun job a task hagrees hheld => by rw [hagrees.of_held (hadmits job hheld)]; exact htarget) hc id
  exact ⟨htraces, fun _ => hlegal⟩

/-- A job that is updated leaves the rows of every run. -/
theorem Desk.updateJob_rows {j : ℕ} {admits : DeliveryJob → Bool} {f : DeliveryJob → DeliveryJob}
    (h : d.updateJob j admits f = some d') (k : RunId) : d'.row? k = d.row? k := by
  simp only [Desk.updateJob, Option.bind_eq_bind, Option.bind_eq_some_iff, Option.some.injEq] at h
  obtain ⟨_, -, _, -, rfl⟩ := h
  rfl

/-- A job that is claimed, too. -/
theorem Desk.claim_rows {readNow now : Time} {token : LeaseToken} {jobAt : ℕ}
    (h : d.claim? readNow now token jobAt = some d') (k : RunId) : d'.row? k = d.row? k := by
  simp only [Desk.claim?, Option.bind_eq_bind, Option.bind_eq_some_iff, Option.some.injEq] at h
  obtain ⟨_, -, _, -, _, -, d₁, hupdate, rfl⟩ := h
  exact Desk.updateJob_rows hupdate k

/-- **The writes of a committed event of the desk are its own, on every
run**, and along the edges where they are guarded. -/
theorem event_writes (hd : (desk sha256).Reachable d) {e : DeskEvent}
    (hc : d.commit? sha256 e = some d') (id : RunId) :
    Accounted sha256 d d' e id (d.writesOn sha256 id e) := by
  unfold Desk.writesOn
  rw [hc, if_pos (by rfl)]
  cases e with
  | plane e =>
    obtain rfl := Option.some.inj hc
    exact plane_writes (deskInv_of_reachable hd) e id
  | evidence attempt content => exact evidence_writes hc id
  | decide now runId decision reviewer approvalAt taskAt =>
    obtain ⟨seen, seenRows, r, r', hread, hrows, hr, hrow, htraces, hlegal⟩ := decide_writes hd hc
    simp only [hrows, hr]
    exact ⟨traces_row hr hrow htraces id,
      fun hguarded => legal_ite (hlegal (hguarded seen seenRows.task r hread hr))⟩
  | retryPr runId taskAt jobAt =>
    obtain ⟨seenRows, hseen, hwrites⟩ := retryPr_writes hd hc id
    simp only [hseen, Option.elim_some]
    exact hwrites
  | createPr call made =>
    obtain ⟨runId, hcall, htraces, hlegal⟩ := createPr_writes hc id
    simp only [hcall, Option.elim_some]
    exact ⟨htraces, hlegal⟩
  | exhaust readNow now j jobAt => exact exhaust_writes hd hc id
  | claim readNow now token jobAt => exact .nothing (fun k => Desk.claim_rows hc k) id
  | renew now execution =>
    simp only [Desk.commit?, Desk.renew?, Option.bind_eq_bind, Option.bind_eq_some_iff] at hc
    obtain ⟨_, -, hc⟩ := hc
    exact .nothing (fun k => Desk.updateJob_rows hc k) id
  | recordCommit execution commit =>
    simp only [Desk.commit?, Desk.recordCommit?, Option.bind_eq_bind, Option.bind_eq_some_iff] at hc
    obtain ⟨_, -, hc⟩ := hc
    exact .nothing (fun k => Desk.updateJob_rows hc k) id
  | delivered execution url =>
    simp only [Desk.commit?, Desk.delivered?, Option.bind_eq_bind, Option.bind_eq_some_iff] at hc
    obtain ⟨⟨j, token⟩, hexecution, hc⟩ := hc
    simp only [hexecution, Option.elim_some]
    exact execution_writes hd (fun _ h => h) (fun _ => rfl) (by decide) hc id
  | deliveryFailed execution error =>
    simp only [Desk.commit?, Desk.deliveryFailed?, Option.bind_eq_bind, Option.bind_eq_some_iff] at hc
    obtain ⟨⟨j, token⟩, hexecution, hc⟩ := hc
    simp only [hexecution, Option.elim_some]
    exact execution_writes hd (fun _ h => h) (fun _ => rfl) (by decide) hc id

/-! ## Every status write, in every run -/

/-- An event that commits nothing writes nothing. -/
theorem writesOn_of_none {e : DeskEvent} (h : d.commit? sha256 e = none) (id : RunId) :
    d.writesOn sha256 id e = [] := by
  unfold Desk.writesOn
  rw [h]
  rfl

/-- **A guarded event writes along the edges.** -/
theorem legal_of_guarded (hd : (desk sha256).Reachable d) {e : DeskEvent}
    (hguarded : d.Guarded sha256 e) (id : RunId) : ∀ w ∈ d.writesOn sha256 id e, w.Legal := by
  cases hc : d.commit? sha256 e with
  | none =>
    rw [writesOn_of_none hc]
    exact fun w hw => absurd hw List.not_mem_nil
  | some d' => exact (event_writes hd hc id).legal hguarded

/-- **The status writes are the ones that happen**: executed one after
another, those of an event take the columns of every run from the state
before it to the state after it. -/
theorem writes_trace (sha256 : String → String) (es : List DeskEvent) (e : DeskEvent) (id : RunId) :
    Traces (((desk sha256).run es).writesOn sha256 id e) (((desk sha256).run es).statuses? id)
      (((desk sha256).run (es ++ [e])).statuses? id) := by
  have hd := (desk sha256).reachable_run es
  rw [Machine.run_concat]
  rcases hc : ((desk sha256).run es).commit? sha256 e with _ | d'
  · have hsame : (desk sha256).step ((desk sha256).run es) e = (desk sha256).run es := by
      change (Desk.commit? sha256 _ e).getD _ = _
      rw [hc]
      rfl
    rw [hsame, writesOn_of_none hc]
    exact .nil _
  · have hstep : (desk sha256).step ((desk sha256).run es) e = d' := by
      change (Desk.commit? sha256 _ e).getD _ = _
      rw [hc]
      rfl
    rw [hstep]
    exact (event_writes hd hc id).traces

/-- **The status writes of a run whose steps are guarded are legal
transitions**, all of them. -/
theorem status_writes_legal (sha256 : String → String) (es : List DeskEvent)
    (hguarded : (desk sha256).Admits (Desk.Guarded sha256) (desk sha256).init es) :
    ∀ (before : List DeskEvent) (e : DeskEvent) (after : List DeskEvent),
      es = before ++ e :: after →
        ∀ id, ∀ w ∈ ((desk sha256).run before).writesOn sha256 id e, w.Legal := by
  rw [Machine.admits_iff] at hguarded
  intro before e after hes
  exact legal_of_guarded ((desk sha256).reachable_run before) (hguarded before e after hes)

/-- A run that was confirmed, claimed and paused. -/
def pausedTask : List DeskEvent := [
  .plane (.confirm (envAt 0) (smallConfirm "key") 0),
  .plane (claimAt 1000 0 1 1),
  .plane (.request (envAt 2000) (.pauseRun 0 2))]

/-- A completion of the first attempt with a patch. -/
def smallCompletion : DeskEvent :=
  .plane (.request (envAt 2000) (.complete ⟨0, 0⟩ (some 7) (.succeeded { patch := some "diff" })
    (checkAt 2000 2) ⟨2, 2⟩))

/-- A completed run whose patch is only to be kept. -/
def keptPatchRun : List DeskEvent := [
  .plane (.confirm (envAt 0) { smallConfirm "key" with draft := {
    snapshot := { smallSnapshot with
      delivery := { kind := .patch, targetBranch := "main", expectedTargetSha := "base" } }
    revision := 1, expiresAt := 1000000 } } 0),
  .plane (claimAt 1000 0 1 1),
  smallCompletion]

/-- A fixture run that was approved, and its pull request created. -/
def approvedFixture : List DeskEvent := [
  .plane (.createTask (envAt 0) { fixtureId := "fake", agentKind := .selfLanggraph }),
  .plane (claimAt 1000 0 1 1),
  smallCompletion,
  .decide 4000 0 .approved none 3 3,
  .createPr 0 (.ok "https://example.test/pull/1")]

/-- Its decision and the end of its `createPr` come alone: the one found the
task as it was read, the other as the decision left it. -/
theorem approvedFixture_guarded :
    (desk plainDigest).Admits (Desk.Guarded plainDigest) (desk plainDigest).init approvedFixture := by
  refine ⟨trivial, trivial, trivial, fun seen seenTask r hread hr => ?_, fun runId hcall r hr => ?_,
    trivial⟩
  · have hseen : (((desk plainDigest).run (approvedFixture.take 3)).seen? 0 3 3).map (fun x =>
        (x.2.snapshot.isSome, x.2.status)) = some (false, .awaitingApproval) := by decide
    have hnow : (((desk plainDigest).run (approvedFixture.take 3)).row? 0).map (·.task.status) =
        some .awaitingApproval := by decide
    have hread : ((desk plainDigest).run (approvedFixture.take 3)).seen? 0 3 3 =
        some (seen, seenTask) := hread
    have hr : ((desk plainDigest).run (approvedFixture.take 3)).row? 0 = some r := hr
    rw [hread] at hseen
    rw [hr] at hnow
    obtain ⟨hnone, hstatus⟩ := Prod.mk.inj (Option.some.inj hseen)
    refine ⟨fun hsome => absurd hsome (by rw [hnone]; decide), fun _ _ _ => ?_⟩
    exact (Option.some.inj hnow).trans hstatus.symm
  · have hcreated : ((desk plainDigest).run (approvedFixture.take 4)).creations[0]? = some 0 := by
      decide
    have hnow : (((desk plainDigest).run (approvedFixture.take 4)).row? 0).map (·.task.status) =
        some .approved := by decide
    obtain rfl := Option.some.inj (hcreated.symm.trans hcall)
    have hr : ((desk plainDigest).run (approvedFixture.take 4)).row? 0 = some r := hr
    rw [hr] at hnow
    exact Option.some.inj hnow

/-- So every status write of that run is along an edge: the last one takes
the task from approved to created. -/
theorem status_writes_legal_of_approved :
    ((desk plainDigest).run (approvedFixture.take 4)).writesOn plainDigest 0
        (.createPr 0 (.ok "https://example.test/pull/1")) = [.task .approved .prCreated] ∧
      ∀ w ∈ ((desk plainDigest).run (approvedFixture.take 4)).writesOn plainDigest 0
        (.createPr 0 (.ok "https://example.test/pull/1")), w.Legal :=
  ⟨by decide, status_writes_legal plainDigest approvedFixture approvedFixture_guarded
    (approvedFixture.take 4) _ [] rfl 0⟩

set_option maxRecDepth 20000 in
/-- **Three writes off the edges**: a resume dispatches an interrupted run,
an approval resolves a task that awaits it, and a rejection that read the
fixture before its approval rejects a task whose pull request is created. -/
theorem unguarded_writes :
    (∃ w ∈ ((desk plainDigest).run pausedTask).writesOn plainDigest 0
        (.plane (.request (envAt 3000) (.resume 0))),
      w = .run .interrupted .dispatched ∧ ¬ w.Legal) ∧
    (∃ w ∈ ((desk plainDigest).run keptPatchRun).writesOn plainDigest 0
        (.decide 4000 0 .approved none 3 3),
      w = .task .awaitingApproval .resolved ∧ ¬ w.Legal) ∧
    ∃ w ∈ ((desk plainDigest).run approvedFixture).writesOn plainDigest 0
        (.decide 4000 0 .rejected none 3 3),
      w = .task .prCreated .rejected ∧ ¬ w.Legal := by
  refine ⟨?_, ?_, ?_⟩ <;> decide

end ControlPlane

end AgentReliability
