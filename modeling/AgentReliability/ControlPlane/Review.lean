import AgentReliability.ControlPlane.Reviewed
import Mathlib.Data.Option.Basic
/-!
# The case of a run

What is on file about a run: its rows and the delivery job of its
approval. `CaseStep` says once what the reviewers and the ticks may do to
it, `Desk.case_step` that every committed event does that to one run and
nothing to the others, and the rule at the end lifts an invariant of one
case to the desk.
-/

namespace AgentReliability

namespace ControlPlane

open DeliveryService

structure Case where
  rows : RunRows
  job : Option DeliveryJob

/-- The case of a run. -/
def Desk.case? (d : Desk) (id : RunId) : Option Case := (d.row? id).map fun r => ⟨r, d.job? id⟩

/-- The transactions of `retry` and `tick` that write a job, its approval
and its task. -/
inductive Settles : JobWrite → Prop
  | retry : Settles DeliveryService.retry
  | exhaust (now : Time) : Settles (exhaust now)
  | succeed (token : LeaseToken) (url : String) : Settles (succeed token url)
  | fail (token : LeaseToken) (error : DeliveryError) : Settles (fail token error)

/-- The updates of a job alone: it is claimed, or a column is written that
neither the approval nor the task goes with. -/
inductive Holds (job : DeliveryJob) : DeliveryJob → Prop
  | claim {candidate : DeliveryJob} {readNow now : Time} {token : LeaseToken}
      (hcandidate : claimable readNow candidate) (hadmits : claimAdmits now candidate job) :
      Holds job (claimJob now token job)
  | renew {now : Time} : Holds job { job with leaseExpiresAt := some now }
  | record {commit : String} : Holds job { job with commitSha := some commit }

/-- **What a transaction beside the control plane may do to a case.** -/
inductive CaseStep (sha256 : String → String) (id : RunId) (c : Case) : Case → Prop
  | evidence {a : Artifact} (hkind : a.kind ≠ .patch) :
      CaseStep sha256 id c { c with rows := c.rows.createArtifact a }
  /-- A decision that was made before. -/
  | decided : CaseStep sha256 id c c
  | reject {a : Approval} {reviewer : String} {now : Time} (hs : c.rows.run.status = .succeeded)
      (ha : c.rows.approvals = [a]) (hpending : a.status = .pending) :
      CaseStep sha256 id c { c with
        rows := (c.rows.decideAs .rejected reviewer now).setTask .rejected }
  | resolve {a : Approval} {snapshot : TaskSnapshot} {reviewer : String} {now : Time}
      (hs : c.rows.run.status = .succeeded) (ha : c.rows.approvals = [a])
      (hpending : a.status = .pending) (hsnapshot : c.rows.task.snapshot = some snapshot)
      (hpatch : patchUnchanged sha256 c.rows a) (hkind : snapshot.delivery.kind = .patch) :
      CaseStep sha256 id c { c with
        rows := (c.rows.decideAs .approved reviewer now).setTask .resolved }
  | enqueue {a : Approval} {snapshot : TaskSnapshot} {reviewer : String} {now : Time}
      (hs : c.rows.run.status = .succeeded) (ha : c.rows.approvals = [a])
      (hpending : a.status = .pending) (hsnapshot : c.rows.task.snapshot = some snapshot)
      (hpatch : patchUnchanged sha256 c.rows a) (hkind : snapshot.delivery.kind ≠ .patch)
      (hjob : c.job = none) :
      CaseStep sha256 id c {
        rows := (c.rows.decideAs .approved reviewer now).setTask .approved
        job := some {
          approvalId := id, patchDigest := a.patchDigest.getD ""
          branch := deliveryBranch id (a.patchDigest.getD "") } }
  | settle {w : JobWrite} {job : DeliveryJob} (hs : c.rows.run.status = .succeeded)
      (hw : Settles w) (hjob : c.job = some job) (hadmits : w.admits job) :
      CaseStep sha256 id c ⟨w.rows c.rows, some (w.job job)⟩
  | hold {job job' : DeliveryJob} (hjob : c.job = some job) (hholds : Holds job job') :
      CaseStep sha256 id c { c with job := some job' }
  /-- A fixture's decision, or the end of its pull request. -/
  | fixture {f : Approval → Approval} {status : TaskStatus} (hs : c.rows.run.status = .succeeded)
      (hsnapshot : c.rows.task.snapshot = none) :
      CaseStep sha256 id c { c with rows := (c.rows.updateApproval f).setTask status }

variable {sha256 : String → String} {id : RunId} {c c' : Case} {d d' : Desk} {r r' : RunRows}
  {job job' : DeliveryJob}

/-! ## What no step does -/

/-- **What the reviewers may write of a run**: the task's status and
reason, and the columns of the approval. -/
structure OnlyReviewed (r r' : RunRows) : Prop where
  rows : r' = { r with
    task := { r.task with
      status := r'.task.status, attentionReason := r'.task.attentionReason }
    approvals := r'.approvals }
  approvals : r'.approvals.length = r.approvals.length

theorem OnlyReviewed.setTask {status : TaskStatus} (h : OnlyReviewed r r') :
    OnlyReviewed r (r'.setTask status) := by
  obtain ⟨hrows, happrovals⟩ := h
  refine ⟨?_, happrovals⟩
  rw [hrows]
  rfl

theorem OnlyReviewed.setReason {reason : Option String} (h : OnlyReviewed r r') :
    OnlyReviewed r (r'.setReason reason) := by
  obtain ⟨hrows, happrovals⟩ := h
  refine ⟨?_, happrovals⟩
  rw [hrows]
  rfl

theorem onlyReviewed_updateApproval (r : RunRows) (f : Approval → Approval) :
    OnlyReviewed r (r.updateApproval f) :=
  ⟨rfl, List.length_modifyHead⟩

theorem Settles.onlyReviewed {w : JobWrite} (h : Settles w) (r : RunRows) :
    OnlyReviewed r (w.rows r) := by
  cases h with
  | retry => exact ((onlyReviewed_updateApproval r _).setTask).setReason
  | exhaust now => exact (onlyReviewed_updateApproval r _).setTask
  | succeed token url => exact (onlyReviewed_updateApproval r _).setTask
  | fail token error => exact ((onlyReviewed_updateApproval r _).setTask).setReason

/-- Of the run a step leaves every row but the artifacts as it is. -/
theorem CaseStep.onlyReviewed (h : CaseStep sha256 id c c') :
    OnlyReviewed c.rows c'.rows ∨
      ∃ a : Artifact, a.kind ≠ .patch ∧ c'.rows = c.rows.createArtifact a := by
  cases h with
  | evidence hkind => exact .inr ⟨_, hkind, rfl⟩
  | decided => exact .inl ⟨rfl, rfl⟩
  | reject => exact .inl (onlyReviewed_updateApproval c.rows _).setTask
  | resolve => exact .inl (onlyReviewed_updateApproval c.rows _).setTask
  | enqueue => exact .inl (onlyReviewed_updateApproval c.rows _).setTask
  | settle _ hw => exact .inl (hw.onlyReviewed c.rows)
  | hold => exact .inl ⟨rfl, rfl⟩
  | fixture => exact .inl (onlyReviewed_updateApproval c.rows _).setTask

theorem CaseStep.run (h : CaseStep sha256 id c c') : c'.rows.run = c.rows.run := by
  rcases h.onlyReviewed with ⟨hrows, -⟩ | ⟨a, -, hrows⟩
  · rw [hrows]
  · rw [hrows]
    rfl

theorem CaseStep.snapshot (h : CaseStep sha256 id c c') :
    c'.rows.task.snapshot = c.rows.task.snapshot := by
  rcases h.onlyReviewed with ⟨hrows, -⟩ | ⟨a, -, hrows⟩
  · rw [hrows]
  · rw [hrows]
    rfl

/-- Nor is the patch a step's to replace. -/
theorem CaseStep.latestPatch (h : CaseStep sha256 id c c') :
    c'.rows.latestPatch = c.rows.latestPatch := by
  rcases h.onlyReviewed with ⟨hrows, -⟩ | ⟨a, hkind, hrows⟩
  · rw [hrows]
    rfl
  · rw [hrows]
    unfold RunRows.latestPatch RunRows.createArtifact
    rw [List.filter_append, List.filter_cons_of_neg (by simpa using hkind), List.filter_nil,
      List.append_nil]

/-- Before any review the run is as it was. -/
theorem CaseStep.core (h : CaseStep sha256 id c c') : c'.rows.base.core = c.rows.base.core := by
  have hrun := h.run
  by_cases hs : c.rows.run.status = .succeeded
  · rw [RunRows.base_of_succeeded hs, RunRows.base_of_succeeded (hrun ▸ hs)]
    rcases h.onlyReviewed with ⟨hrows, happrovals⟩ | ⟨a, -, hrows⟩
    · rw [hrows]
      simp only [RunRows.core, RunRows.setTask, happrovals]
    · rw [hrows]
      rfl
  · rw [RunRows.base_of_ne hs, RunRows.base_of_ne (hrun ▸ hs)]
    cases h with
    | evidence => rfl
    | decided => rfl
    | hold => rfl
    | reject hs' => exact absurd hs' hs
    | resolve hs' => exact absurd hs' hs
    | enqueue hs' => exact absurd hs' hs
    | settle hs' => exact absurd hs' hs
    | fixture hs' => exact absurd hs' hs

/-! ## What an event does to the desk -/

/-- **The desk's own invariants**: the control plane before any review is
sound, a job belongs to a run that succeeded, and so does every version of
a run that once has. -/
structure DeskInv (d : Desk) : Prop where
  sound : Sound d.plane.base
  unique : Table.Unique DeliveryJob.approvalId d.jobs
  jobs : ∀ (k : RunId) (job : DeliveryJob), d.job? k = some job →
    ∃ r, d.row? k = some r ∧ r.run.status = .succeeded
  ended : ∀ v ∈ d.plane.versions, ∀ (k : RunId) (r : RunRows), v.runs[k]? = some r →
    r.run.status = .succeeded → ∃ r', d.row? k = some r' ∧ r'.run.status = .succeeded
  creations : ∀ k ∈ d.creations, ∃ r, d.row? k = some r ∧ r.run.status = .succeeded ∧
    r.task.snapshot = none

/-- **What a committed event does**: it is one of the control plane's, or
a step of one case. -/
inductive DeskWrite (sha256 : String → String) (d d' : Desk) : Prop
  | plane (e : Event) (hplane : d'.plane = step d.plane (e.withSha sha256))
      (hjobs : d'.jobs = d.jobs) (hcreations : d'.creations = d.creations)
  | ofCase {id : RunId} {c c' : Case} (hc : d.case? id = some c) (hstep : CaseStep sha256 id c c')
      (hplane : d'.plane = (d.setRow id c'.rows).plane ∨
        d'.plane = d.plane ∧ c'.rows = c.rows)
      (hunique : Table.Unique DeliveryJob.approvalId d'.jobs)
      (hjobs : ∀ k, d'.job? k = if k = id then c'.job else d.job? k)
      (hcreations : ∀ k ∈ d'.creations, k ∈ d.creations ∨
        k = id ∧ c.rows.run.status = .succeeded ∧ c.rows.task.snapshot = none)

theorem Desk.case?_of_row (hr : d.row? id = some r) : d.case? id = some ⟨r, d.job? id⟩ := by
  unfold Desk.case?
  rw [hr]
  rfl

/-- The approval of a run that succeeded. -/
theorem DeskInv.of_approval (h : DeskInv d) (hr : d.row? id = some r) {a : Approval}
    (ha : r.approval? = some a) : r.run.status = .succeeded ∧ r.approvals = [a] := by
  have hlength := approvals_of_base (h.sound.reviewed hr).1
  unfold RunRows.approval? at ha
  by_cases hs : r.run.status = .succeeded
  · rw [if_pos hs] at hlength
    obtain ⟨b, hb⟩ := List.length_eq_one_iff.mp hlength
    rw [hb] at ha
    obtain rfl : b = a := by simpa using ha
    exact ⟨hs, hb⟩
  · rw [if_neg hs, List.length_eq_zero_iff] at hlength
    rw [hlength] at ha
    exact absurd ha (by simp)

/-- The case a job belongs to. -/
theorem DeskInv.of_job (h : DeskInv d) {j : ℕ} (hj : d.jobs[j]? = some job) :
    ∃ r, d.row? job.approvalId = some r ∧ r.run.status = .succeeded ∧
      d.case? job.approvalId = some ⟨r, some job⟩ := by
  have hjob : d.job? job.approvalId = some job :=
    Table.lookup_of_mem h.unique (List.mem_of_getElem? hj)
  obtain ⟨r, hr, hs⟩ := h.jobs _ _ hjob
  refine ⟨r, hr, hs, ?_⟩
  rw [Desk.case?_of_row hr, hjob]

/-- A read of a run, however old, is of the same snapshot. -/
theorem DeskInv.snapshot_of_runAt (h : DeskInv d) {k : ℕ} {seen : RunRows}
    (hseen : d.plane.runAt k id = some seen) (hr : d.row? id = some r) :
    seen.task.snapshot = r.task.snapshot := by
  have hseen' : d.plane.base.runAt k id = some seen.base := by
    rw [State.base_runAt, hseen]
    rfl
  obtain ⟨v, hv, -, hrun⟩ := Sound.of_runAt hseen'
  obtain ⟨x, hx, hlater⟩ := h.sound.later_db hv id _ hrun
  have hx' : d.plane.base.db.runs[id]? = some r.base := by
    change d.plane.db.base.runs[id]? = _
    have hr' : d.plane.db.runs[id]? = some r := hr
    rw [Database.base_getElem?, hr']
    rfl
  obtain rfl := Option.some.inj (hx'.symm.trans hx)
  have hsnapshot : r.base.task.snapshot = seen.base.task.snapshot := hlater.snapshot
  rw [RunRows.base_snapshot, RunRows.base_snapshot] at hsnapshot
  exact hsnapshot.symm

/-- A run that had an approval in some version has succeeded. -/
theorem DeskInv.succeeded_of_runAt (h : DeskInv d) {k : ℕ} {seen : RunRows}
    (hseen : d.plane.runAt k id = some seen) {a : Approval} (ha : seen.approval? = some a) :
    ∃ r, d.row? id = some r ∧ r.run.status = .succeeded := by
  obtain ⟨v, hv, -, hrun⟩ := Sound.of_runAt hseen
  have hbase : v.base ∈ d.plane.base.versions := by
    rw [State.base_versions]
    exact List.mem_map_of_mem hv
  have hinv : seen.base.core.StatusInv :=
    (h.sound.inv _ hbase _ (List.mem_map_of_mem (List.mem_of_getElem? hrun))).1
  refine h.ended v hv id seen hrun ?_
  by_contra hs
  have hlength := approvals_of_base hinv
  rw [if_neg hs, List.length_eq_zero_iff] at hlength
  unfold RunRows.approval? at ha
  rw [hlength] at ha
  exact absurd ha (by simp)

/-- A transaction of `retry` or `tick` is a step of the job's case. -/
theorem DeskInv.write (h : DeskInv d) {j : ℕ} {w : JobWrite} (hw : Settles w)
    (hd : d.write j w = some d') : DeskWrite sha256 d d' := by
  simp only [Desk.write, Option.bind_eq_bind, Option.bind_eq_some_iff, Option.guard_eq_some',
    Option.some.injEq] at hd
  obtain ⟨job, hj, _, hadmits, r, hr, a, ha, rfl⟩ := hd
  have hkey : (w.job job).approvalId = job.approvalId := by cases hw <;> rfl
  have hs := (h.of_approval hr ha).1
  obtain ⟨r', hr', -, hcase⟩ := h.of_job hj
  obtain rfl := Option.some.inj (hr.symm.trans hr')
  refine .ofCase hcase (.settle hs hw rfl hadmits) (.inl rfl) (h.unique.set hj hkey) (fun k => ?_)
    fun k hk => .inl hk
  exact Table.lookup_set h.unique hj hkey

/-- So is an update of the job alone. -/
theorem DeskInv.updateJob (sha256 : String → String) (h : DeskInv d) {j : ℕ} {admits : DeliveryJob → Bool}
    {f : DeliveryJob → DeliveryJob} (hholds : ∀ job, admits job → Holds job (f job))
    (hd : d.updateJob j admits f = some d') : DeskWrite sha256 d d' := by
  simp only [Desk.updateJob, Option.bind_eq_bind, Option.bind_eq_some_iff, Option.guard_eq_some',
    Option.some.injEq] at hd
  obtain ⟨job, hj, _, hadmits, rfl⟩ := hd
  have hhold := hholds job hadmits
  have hkey : (f job).approvalId = job.approvalId := by
    revert hhold
    generalize f job = job'
    rintro (_ | _ | _) <;> rfl
  obtain ⟨r, hr, -, hcase⟩ := h.of_job hj
  refine .ofCase hcase (.hold rfl hhold) (.inr ⟨rfl, rfl⟩) (h.unique.set hj hkey) (fun k => ?_)
    fun k hk => .inl hk
  exact Table.lookup_set h.unique hj hkey

/-- An event that leaves the job table and writes the rows of one run. -/
theorem DeskWrite.ofRow (h : DeskInv d) (hr : d.row? id = some r) {r' : RunRows}
    (hstep : CaseStep sha256 id ⟨r, d.job? id⟩ ⟨r', d.job? id⟩)
    (hplane : d'.plane = (d.setRow id r').plane) (hjobs : d'.jobs = d.jobs)
    (hcreations : ∀ k ∈ d'.creations, k ∈ d.creations ∨
      k = id ∧ r.run.status = .succeeded ∧ r.task.snapshot = none) :
    DeskWrite sha256 d d' := by
  refine .ofCase (Desk.case?_of_row hr) hstep (.inl hplane) ?_ (fun k => ?_) hcreations
  · rw [hjobs]
    exact h.unique
  · have hjob : d'.job? k = d.job? k := by
      unfold Desk.job?
      rw [hjobs]
    rw [hjob]
    by_cases hk : k = id
    · rw [if_pos hk, hk]
    · rw [if_neg hk]

/-- The decision on a snapshot task. -/
theorem DeskInv.approve (h : DeskInv d) {now : Time} {reviewer : Option String}
    (hr : d.row? id = some r) {jobs : List DeliveryJob}
    (happ : approve sha256 now id reviewer r d.jobs = .ok (r', jobs))
    (hd : d' = (d.setRow id r').setJobs jobs) : DeskWrite sha256 d d' := by
  simp only [DeliveryService.approve, bind_eq_ok, orThrow_eq_ok] at happ
  obtain ⟨a, ha, happ⟩ := happ
  obtain ⟨hs, happrovals⟩ := h.of_approval hr ha
  split at happ
  · simp only [pure_eq_ok, Prod.mk.injEq] at happ
    obtain ⟨rfl, rfl⟩ := happ
    subst hd
    exact .ofRow h hr .decided rfl rfl fun k hk => .inl hk
  · simp only [bind_eq_ok, require_eq_ok, orThrow_eq_ok] at happ
    obtain ⟨-, hpending, snapshot, hsnapshot, -, hpatch, happ⟩ := happ
    split at happ
    · rename_i hkind
      simp only [pure_eq_ok, Prod.mk.injEq] at happ
      obtain ⟨rfl, rfl⟩ := happ
      subst hd
      exact .ofRow h hr (.resolve hs happrovals hpending hsnapshot hpatch hkind) rfl rfl
        fun k hk => .inl hk
    · rename_i hkind
      simp only [bind_eq_ok, require_eq_ok, pure_eq_ok, Prod.mk.injEq] at happ
      obtain ⟨-, hfresh, rfl, rfl⟩ := happ
      have hjob : d.job? id = none := Table.lookup_eq_none.mpr hfresh
      subst hd
      refine .ofCase (Desk.case?_of_row hr)
        (.enqueue hs happrovals hpending hsnapshot hpatch hkind hjob) (.inl rfl)
        (h.unique.append hfresh) (fun k => ?_) fun k hk => .inl hk
      exact Table.lookup_append hfresh

theorem DeskInv.reject (h : DeskInv d) {now : Time} {reviewer : Option String}
    (hr : d.row? id = some r) (hrej : reject now reviewer r = .ok r')
    (hd : d' = (d.setRow id r').setJobs d.jobs) : DeskWrite sha256 d d' := by
  simp only [DeliveryService.reject, bind_eq_ok, orThrow_eq_ok] at hrej
  obtain ⟨a, ha, hrej⟩ := hrej
  obtain ⟨hs, happrovals⟩ := h.of_approval hr ha
  subst hd
  split at hrej
  · obtain rfl := pure_eq_ok.mp hrej
    exact .ofRow h hr .decided rfl rfl fun k hk => .inl hk
  · simp only [bind_eq_ok, require_eq_ok, pure_eq_ok] at hrej
    obtain ⟨-, hpending, rfl⟩ := hrej
    exact .ofRow h hr (.reject hs happrovals hpending) rfl rfl fun k hk => .inl hk

theorem DeskInv.decide (h : DeskInv d) {now : Time} {decision : Decision}
    {reviewer : Option String} {approvalAt taskAt : ℕ}
    (hd : d.decide? sha256 now id decision reviewer approvalAt taskAt = some d') :
    DeskWrite sha256 d d' := by
  simp only [Desk.decide?, Option.bind_eq_bind, Option.bind_eq_some_iff, Option.guard_eq_some',
    toOption_eq_some, Option.some.injEq] at hd
  obtain ⟨_, -, before, -, seen, -, seenRows, hseen, r, hr, ⟨r', jobs⟩, hdecide, hd⟩ := hd
  have hsnapshot := h.snapshot_of_runAt hseen hr
  unfold ApprovalService.decide at hdecide
  split at hdecide
  · rename_i hsome
    have hcreations : (if seenRows.task.snapshot.isNone ∧ decision = .approved then [id] else []) =
        ([] : List RunId) := by
      rw [if_neg]
      rintro ⟨hnone, -⟩
      rw [Option.isNone_iff_eq_none.mp hnone] at hsome
      exact absurd hsome (by simp)
    rw [hcreations, List.append_nil] at hd
    cases decision with
    | approved => exact h.approve hr hdecide hd.symm
    | rejected =>
      simp only [bind_eq_ok, pure_eq_ok, Prod.mk.injEq] at hdecide
      obtain ⟨r₁, hrej, rfl, rfl⟩ := hdecide
      exact h.reject hr hrej hd.symm
  · rename_i hnone
    have hnone' : r.task.snapshot = none := by
      rw [← hsnapshot]
      exact Option.not_isSome_iff_eq_none.mp hnone
    simp only [bind_eq_ok, require_eq_ok, orThrow_eq_ok, pure_eq_ok, Prod.mk.injEq] at hdecide
    obtain ⟨-, -, -, -, a, ha, rfl, rfl⟩ := hdecide
    subst hd
    have hs := (h.of_approval hr ha).1
    refine .ofRow h hr (.fixture hs hnone') rfl rfl fun k hk => ?_
    rcases List.mem_append.mp hk with hk | hk
    · exact .inl hk
    · refine .inr ⟨?_, hs, hnone'⟩
      split at hk
      · exact List.mem_singleton.mp hk
      · exact absurd hk List.not_mem_nil

theorem DeskInv.retryPr (h : DeskInv d) {taskAt jobAt : ℕ}
    (hd : d.retryPr? id taskAt jobAt = some d') : DeskWrite sha256 d d' := by
  simp only [Desk.retryPr?, Option.bind_eq_bind, Option.bind_eq_some_iff] at hd
  obtain ⟨seenRows, hseen, a, ha, hd⟩ := hd
  split at hd
  · simp only [Option.bind_eq_some_iff] at hd
    obtain ⟨jobs, -, j, -, job, -, _, -, hd⟩ := hd
    exact h.write .retry hd
  · rename_i hnone
    simp only [Option.bind_eq_some_iff, Option.some.injEq] at hd
    obtain ⟨_, -, r, hr, rfl⟩ := hd
    obtain ⟨r', hr', hs⟩ := h.succeeded_of_runAt hseen ha
    obtain rfl := Option.some.inj (hr.symm.trans hr')
    have hnone' : r.task.snapshot = none := by
      rw [← h.snapshot_of_runAt hseen hr]
      exact Option.not_isSome_iff_eq_none.mp hnone
    have hsame : r.setTask .approved = (r.updateApproval fun a => a).setTask .approved := by
      unfold RunRows.updateApproval
      have happrovals : r.approvals.modifyHead (fun a => a) = r.approvals := by
        cases r.approvals <;> rfl
      rw [happrovals]
    refine .ofRow h hr ?_ rfl rfl fun k hk => ?_
    · rw [hsame]
      exact .fixture hs hnone'
    · rcases List.mem_append.mp hk with hk | hk
      · exact .inl hk
      · exact .inr ⟨List.mem_singleton.mp hk, hs, hnone'⟩

theorem DeskInv.createPr (h : DeskInv d) {call : ℕ} {made : Except String String}
    (hd : d.createPr? call made = some d') : DeskWrite sha256 d d' := by
  simp only [Desk.createPr?, Option.bind_eq_bind, Option.bind_eq_some_iff, Option.some.injEq] at hd
  obtain ⟨k, hk, r, hr, a, ha, rfl⟩ := hd
  obtain ⟨r', hr', hs, hnone⟩ := h.creations k (List.mem_of_getElem? hk)
  obtain rfl := Option.some.inj (hr.symm.trans hr')
  cases made with
  | ok url => exact .ofRow h hr (.fixture hs hnone) rfl rfl fun k hk => .inl hk
  | error message => exact .ofRow h hr (.fixture hs hnone) rfl rfl fun k hk => .inl hk

theorem DeskInv.evidence (h : DeskInv d) {attempt : AttemptId} {content : String}
    (hd : d.evidence? sha256 attempt content = some d') : DeskWrite sha256 d d' := by
  simp only [Desk.evidence?, Option.bind_eq_bind, Option.bind_eq_some_iff, Option.some.injEq] at hd
  obtain ⟨r, hr, a, -, _, -, rfl⟩ := hd
  have hkind : (evidenceArtifact attempt content).kind ≠ .patch := by simp [evidenceArtifact]
  exact .ofRow h hr (.evidence hkind) rfl rfl fun k hk => .inl hk

theorem DeskInv.claim (h : DeskInv d) {readNow now : Time} {token : LeaseToken} {jobAt : ℕ}
    (hd : d.claim? readNow now token jobAt = some d') : DeskWrite sha256 d d' := by
  simp only [Desk.claim?, Option.bind_eq_bind, Option.bind_eq_some_iff, Option.some.injEq] at hd
  obtain ⟨jobs, -, j, hj, candidate, hcandidate, d₁, hd₁, rfl⟩ := hd
  have hclaimable : claimable readNow candidate := by
    obtain ⟨hlt, hp, -⟩ := List.findIdx?_eq_some_iff_getElem.mp hj
    rw [← (List.getElem?_eq_some_iff.mp hcandidate).2]
    exact hp
  cases h.updateJob sha256 (fun job hadmits => .claim hclaimable hadmits) hd₁ with
  | plane e hplane hjobs hcreations => exact .plane e hplane hjobs hcreations
  | ofCase hc hstep hplane hunique hjobs hcreations =>
    exact .ofCase hc hstep hplane hunique hjobs hcreations

/-- **Every committed event is a write of the desk.** -/
theorem DeskInv.deskWrite (h : DeskInv d) {e : DeskEvent} (hd : d.commit? sha256 e = some d') :
    DeskWrite sha256 d d' := by
  cases e with
  | plane e =>
    obtain rfl := Option.some.inj hd
    exact .plane e rfl rfl rfl
  | evidence attempt content => exact h.evidence hd
  | decide now runId decision reviewer approvalAt taskAt => exact DeskInv.decide h hd
  | retryPr runId taskAt jobAt => exact h.retryPr hd
  | createPr call made => exact h.createPr hd
  | exhaust readNow now j jobAt =>
    simp only [Desk.commit?, Desk.exhaust?, Option.bind_eq_bind, Option.bind_eq_some_iff] at hd
    obtain ⟨jobs, -, job, -, _, -, hd⟩ := hd
    exact h.write (.exhaust now) hd
  | claim readNow now token jobAt => exact h.claim hd
  | renew now execution =>
    simp only [Desk.commit?, Desk.renew?, Option.bind_eq_bind, Option.bind_eq_some_iff] at hd
    obtain ⟨⟨j, token⟩, -, hd⟩ := hd
    exact h.updateJob sha256 (fun _ _ => .renew) hd
  | recordCommit execution commit =>
    simp only [Desk.commit?, Desk.recordCommit?, Option.bind_eq_bind, Option.bind_eq_some_iff] at hd
    obtain ⟨⟨j, token⟩, -, hd⟩ := hd
    exact h.updateJob sha256 (fun _ _ => .record) hd
  | delivered execution url =>
    simp only [Desk.commit?, Desk.delivered?, Option.bind_eq_bind, Option.bind_eq_some_iff] at hd
    obtain ⟨⟨j, token⟩, -, hd⟩ := hd
    exact h.write (.succeed token url) hd
  | deliveryFailed execution error =>
    simp only [Desk.commit?, Desk.deliveryFailed?, Option.bind_eq_bind,
      Option.bind_eq_some_iff] at hd
    obtain ⟨⟨j, token⟩, -, hd⟩ := hd
    exact h.write (.fail token error) hd

/-! ## The desk keeps its invariants -/

theorem Desk.row?_setRow (hr : d.row? id = some r) (k : RunId) :
    (d.setRow id r').row? k = if k = id then some r' else d.row? k := by
  have hlt : id < d.plane.db.runs.length := (List.getElem?_eq_some_iff.mp hr).1
  change (d.plane.db.runs.set id r')[k]? = if k = id then some r' else d.plane.db.runs[k]?
  by_cases hk : k = id
  · rw [if_pos hk, hk, List.getElem?_set_self hlt]
  · rw [if_neg hk, List.getElem?_set_ne fun he => hk he.symm]

theorem Desk.case?_eq_some (hc : d.case? id = some c) :
    d.row? id = some c.rows ∧ d.job? id = c.job := by
  obtain ⟨r, hr, rfl⟩ := Option.map_eq_some_iff.mp hc
  exact ⟨hr, rfl⟩

/-- The rows after a step of a case. -/
theorem row?_of_case (hc : d.case? id = some c)
    (hplane : d'.plane = (d.setRow id c'.rows).plane ∨ d'.plane = d.plane ∧ c'.rows = c.rows)
    (k : RunId) : d'.row? k = if k = id then some c'.rows else d.row? k := by
  have hr := (Desk.case?_eq_some hc).1
  rcases hplane with hplane | ⟨hplane, hrows⟩
  · have hrow : d'.row? k = (d.setRow id c'.rows).row? k := by
      unfold Desk.row?
      rw [hplane]
    rw [hrow, Desk.row?_setRow hr]
  · have hrow : d'.row? k = d.row? k := by
      unfold Desk.row?
      rw [hplane]
    rw [hrow]
    by_cases hk : k = id
    · rw [if_pos hk, hk, hr, hrows]
    · rw [if_neg hk]

/-- A job is only made for a run that succeeded. -/
theorem CaseStep.succeeded_of_job (h : CaseStep sha256 id c c') (hjob : c'.job = some job') :
    c.rows.run.status = .succeeded ∨ ∃ job, c.job = some job := by
  cases h with
  | evidence => exact .inr ⟨job', hjob⟩
  | decided => exact .inr ⟨job', hjob⟩
  | reject hs => exact .inl hs
  | resolve hs => exact .inl hs
  | enqueue hs => exact .inl hs
  | settle hs => exact .inl hs
  | hold hc => exact .inr ⟨_, hc⟩
  | fixture hs => exact .inl hs

/-- An event of the control plane keeps the books of a run that
succeeded. -/
theorem DeskInv.books (h : DeskInv d) (e : Event) (hr : d.row? id = some r)
    (hs : r.run.status = .succeeded) :
    ∃ r', (step d.plane e).db.runs[id]? = some r' ∧ OnlyBookkeeping r r' := by
  obtain ⟨r', hr', hone⟩ := (captures_of_base h.sound).rows_step_of_some e hr
  refine ⟨r', hr', ?_⟩
  rcases hone with rfl | ⟨env, hrow⟩
  · exact .refl _
  · exact onlyBookkeeping_of_base (h.sound.reviewed hr).1 hs hrow

/-- The invariants go with the runs that have succeeded: they stay, on the
same snapshot, and what is new is about them. -/
theorem DeskInv.of_kept (h : DeskInv d) (hsound : Sound d'.plane.base)
    (hunique : Table.Unique DeliveryJob.approvalId d'.jobs)
    (hkept : ∀ (k : RunId) (r : RunRows), d.row? k = some r → r.run.status = .succeeded →
      ∃ r', d'.row? k = some r' ∧ r'.run.status = .succeeded ∧ r'.task.snapshot = r.task.snapshot)
    (hjobs : ∀ (k : RunId) (job : DeliveryJob), d'.job? k = some job →
      ∃ r, d.row? k = some r ∧ r.run.status = .succeeded)
    (hversions : ∀ v ∈ d'.plane.versions, v ∈ d.plane.versions ∨ v = d'.plane.db)
    (hcreations : ∀ k ∈ d'.creations, ∃ r, d.row? k = some r ∧ r.run.status = .succeeded ∧
      r.task.snapshot = none) : DeskInv d' := by
  refine ⟨hsound, hunique, fun k job hk => ?_, fun v hv k r hr hs => ?_, fun k hk => ?_⟩
  · obtain ⟨r, hr, hs⟩ := hjobs k job hk
    obtain ⟨r', hr', hs', -⟩ := hkept k r hr hs
    exact ⟨r', hr', hs'⟩
  · rcases hversions v hv with hv | rfl
    · obtain ⟨x, hx, hxs⟩ := h.ended v hv k r hr hs
      obtain ⟨r', hr', hs', -⟩ := hkept k x hx hxs
      exact ⟨r', hr', hs'⟩
    · exact ⟨r, hr, hs⟩
  · obtain ⟨r, hr, hs, hnone⟩ := hcreations k hk
    obtain ⟨r', hr', hs', hsnapshot⟩ := hkept k r hr hs
    exact ⟨r', hr', hs', hsnapshot.trans hnone⟩

/-- **An event of the control plane keeps them.** -/
theorem DeskInv.of_plane (h : DeskInv d) (e : Event)
    (hplane : d'.plane = step d.plane (e.withSha sha256)) (hjobs : d'.jobs = d.jobs)
    (hcreations : d'.creations = d.creations) : DeskInv d' := by
  have hjob : ∀ k, d'.job? k = d.job? k := by
    intro k
    unfold Desk.job?
    rw [hjobs]
  refine h.of_kept ?_ ?_ (fun k r hr hs => ?_) (fun k job hk => ?_) (fun v hv => ?_) fun k hk => ?_
  · rw [hplane]
    exact h.sound.reviewed_step _
  · rw [hjobs]
    exact h.unique
  · obtain ⟨r', hr', hkept⟩ := h.books (e.withSha sha256) hr hs
    refine ⟨r', ?_, hkept.status.trans hs, by rw [hkept.1]⟩
    unfold Desk.row?
    rw [hplane]
    exact hr'
  · rw [hjob] at hk
    exact h.jobs k job hk
  · rw [hplane] at hv ⊢
    exact versions_step _ _ v hv
  · rw [hcreations] at hk
    exact h.creations k hk

/-- The run a step of a case is about is as far as it was, and so are the
others. -/
theorem CaseStep.kept (hstep : CaseStep sha256 id c c') (hc : d.case? id = some c)
    (hplane : d'.plane = (d.setRow id c'.rows).plane ∨ d'.plane = d.plane ∧ c'.rows = c.rows)
    {k : RunId} (hk : d.row? k = some r) :
    ∃ r', d'.row? k = some r' ∧ r'.run = r.run ∧ r'.task.snapshot = r.task.snapshot := by
  obtain ⟨hr, -⟩ := Desk.case?_eq_some hc
  rw [row?_of_case hc hplane]
  by_cases hid : k = id
  · subst hid
    obtain rfl := Option.some.inj (hr.symm.trans hk)
    exact ⟨c'.rows, if_pos rfl, hstep.run, hstep.snapshot⟩
  · exact ⟨r, by rw [if_neg hid]; exact hk, rfl, rfl⟩

/-- **A step of a case keeps them.** -/
theorem DeskInv.of_caseStep (h : DeskInv d) (hc : d.case? id = some c)
    (hstep : CaseStep sha256 id c c')
    (hplane : d'.plane = (d.setRow id c'.rows).plane ∨ d'.plane = d.plane ∧ c'.rows = c.rows)
    (hunique : Table.Unique DeliveryJob.approvalId d'.jobs)
    (hjobs : ∀ k, d'.job? k = if k = id then c'.job else d.job? k)
    (hcreations : ∀ k ∈ d'.creations, k ∈ d.creations ∨
      k = id ∧ c.rows.run.status = .succeeded ∧ c.rows.task.snapshot = none) : DeskInv d' := by
  obtain ⟨hr, hjob⟩ := Desk.case?_eq_some hc
  refine h.of_kept ?_ hunique (fun k r hk hs => ?_) (fun k job hk => ?_) (fun v hv => ?_)
    fun k hk => ?_
  · rcases hplane with hplane | ⟨hplane, -⟩
    · rw [hplane]
      exact h.sound.reviewed_write hr hstep.core
    · rw [hplane]
      exact h.sound
  · obtain ⟨r', hr', hrun, hsnapshot⟩ := hstep.kept hc hplane hk
    exact ⟨r', hr', by rw [hrun]; exact hs, hsnapshot⟩
  · rw [hjobs] at hk
    split at hk
    · rename_i hid
      subst hid
      rcases hstep.succeeded_of_job hk with hs | ⟨job, hcjob⟩
      · exact ⟨c.rows, hr, hs⟩
      · exact h.jobs k job (hjob.trans hcjob)
    · exact h.jobs k job hk
  · rcases hplane with hplane | ⟨hplane, -⟩
    · rw [hplane] at hv ⊢
      have hv : v ∈ d.plane.versions ++ [(d.setRow id c'.rows).plane.db] := hv
      rwa [List.mem_append, List.mem_singleton] at hv
    · rw [hplane] at hv
      exact .inl hv
  · rcases hcreations k hk with hk | ⟨rfl, hs, hnone⟩
    · exact h.creations k hk
    · exact ⟨c.rows, hr, hs, hnone⟩

/-- **A write of the desk keeps its invariants.** -/
theorem DeskInv.of_deskWrite (h : DeskInv d) (hw : DeskWrite sha256 d d') : DeskInv d' := by
  cases hw with
  | plane e hplane hjobs hcreations => exact h.of_plane e hplane hjobs hcreations
  | ofCase hc hstep hplane hunique hjobs hcreations =>
    exact h.of_caseStep hc hstep hplane hunique hjobs hcreations

theorem DeskInv.init : DeskInv (desk sha256).init where
  sound := by
    have hversions : ((desk sha256).init.plane.base).versions = machine.init.versions := rfl
    refine ⟨?_, ?_⟩
    · rw [hversions]
      exact Sound.init.inv
    · rw [hversions]
      exact Sound.init.later
  unique := List.nodup_nil
  jobs := fun k job hk => absurd hk (by simp [desk, Desk.job?, Table.lookup])
  ended := by
    intro v hv k r hr
    have hv : v ∈ [({} : Database)] := hv
    rw [List.mem_singleton.mp hv] at hr
    exact absurd hr (by simp)
  creations := fun k hk => absurd hk List.not_mem_nil

/-- A step of the desk commits what the event commits, or changes
nothing. -/
theorem desk_step (sha256 : String → String) (d : Desk) (e : DeskEvent) :
    d.commit? sha256 e = some ((desk sha256).step d e) ∨ (desk sha256).step d e = d := by
  change d.commit? sha256 e = some ((d.commit? sha256 e).getD d) ∨ (d.commit? sha256 e).getD d = d
  cases d.commit? sha256 e with
  | none => exact .inr rfl
  | some d' => exact .inl rfl

theorem DeskInv.step (h : DeskInv d) (e : DeskEvent) : DeskInv ((desk sha256).step d e) := by
  rcases desk_step sha256 d e with hcommit | hsame
  · exact h.of_deskWrite (h.deskWrite hcommit)
  · rw [hsame]
    exact h

theorem deskInv_of_reachable (h : (desk sha256).Reachable d) : DeskInv d :=
  (desk sha256).invariant DeskInv.init (fun _ e h => h.step e) h

/-! ## The rule for one case -/

/-- **The case of one run before and after an event.** It was opened, or
is as it was, or the control plane wrote its rows, or it took a step. -/
theorem DeskInv.case_step (h : DeskInv d) (e : DeskEvent)
    (hc' : ((desk sha256).step d e).case? id = some c') :
    (c'.job = none ∧ ∃ env, Creates (d.plane.db.context env id) c'.rows) ∨
      d.case? id = some c' ∨
      ∃ c, d.case? id = some c ∧
        ((∃ env w, RowStep (d.plane.db.context env id) c.rows c'.rows w ∧ c'.job = c.job) ∨
          CaseStep sha256 id c c') := by
  rcases desk_step sha256 d e with hcommit | hsame
  · cases h.deskWrite hcommit with
    | plane e' hplane hjobs hcreations =>
      obtain ⟨hr', hjob'⟩ := Desk.case?_eq_some hc'
      have hjob : d.job? id = c'.job := by
        rw [← hjob']
        unfold Desk.job?
        rw [hjobs]
      unfold Desk.row? at hr'
      rw [hplane] at hr'
      rcases (captures_of_base h.sound).rows_step _ hr' with ⟨env, rfl, hcreates⟩ | hsame |
          ⟨env, r, hr, hrow, -⟩
      · refine .inl ⟨?_, env, hcreates⟩
        by_contra hsome
        obtain ⟨job, hsome⟩ := Option.ne_none_iff_exists'.mp hsome
        obtain ⟨r, hr, -⟩ := h.jobs _ job (hjob.trans hsome)
        exact absurd (List.getElem?_eq_some_iff.mp hr).1 (Nat.lt_irrefl _)
      · refine .inr (.inl ?_)
        rw [Desk.case?_of_row hsame, hjob]
      · refine .inr (.inr ⟨⟨r, c'.job⟩, ?_, .inl ⟨env, _, hrow, rfl⟩⟩)
        rw [Desk.case?_of_row hr, hjob]
    | @ofCase k c c₁ hc hstep hplane hunique hjobs hcreations =>
      obtain ⟨hr', hjob'⟩ := Desk.case?_eq_some hc'
      rw [row?_of_case hc hplane] at hr'
      rw [hjobs] at hjob'
      by_cases hid : id = k
      · subst hid
        rw [if_pos rfl] at hr' hjob'
        obtain rfl : c₁ = c' := by
          cases c₁
          cases c'
          simp_all
        exact .inr (.inr ⟨c, hc, .inr hstep⟩)
      · rw [if_neg hid] at hr' hjob'
        refine .inr (.inl ?_)
        rw [Desk.case?_of_row hr', hjob']
  · rw [hsame] at hc'
    exact .inr (.inl hc')

/-- **The case of an existing run after an event.** -/
theorem DeskInv.case_step_of_some (h : DeskInv d) (e : DeskEvent) (hc : d.case? id = some c) :
    ∃ c', ((desk sha256).step d e).case? id = some c' ∧
      (c' = c ∨ (∃ env w, RowStep (d.plane.db.context env id) c.rows c'.rows w ∧ c'.job = c.job) ∨
        CaseStep sha256 id c c') := by
  obtain ⟨hr, hjob⟩ := Desk.case?_eq_some hc
  rcases desk_step sha256 d e with hcommit | hsame
  · cases h.deskWrite hcommit with
    | plane e' hplane hjobs hcreations =>
      obtain ⟨r', hr', hone⟩ := (captures_of_base h.sound).rows_step_of_some (e'.withSha sha256) hr
      refine ⟨⟨r', c.job⟩, ?_, ?_⟩
      · have hrow : ((desk sha256).step d e).row? id = some r' := by
          unfold Desk.row?
          rw [hplane]
          exact hr'
        rw [Desk.case?_of_row hrow]
        unfold Desk.job?
        rw [hjobs, ← hjob]
        rfl
      · rcases hone with rfl | ⟨env, hrow⟩
        · exact .inl rfl
        · exact .inr (.inl ⟨env, _, hrow, rfl⟩)
    | @ofCase k c₀ c₁ hc₀ hstep hplane hunique hjobs hcreations =>
      have hrow := row?_of_case hc₀ hplane id
      by_cases hid : id = k
      · subst hid
        obtain rfl := Option.some.inj (hc.symm.trans hc₀)
        rw [if_pos rfl] at hrow
        refine ⟨c₁, ?_, .inr (.inr hstep)⟩
        rw [Desk.case?_of_row hrow, hjobs, if_pos rfl]
      · rw [if_neg hid] at hrow
        refine ⟨c, ?_, .inl rfl⟩
        rw [Desk.case?_of_row (hrow.trans hr), hjobs, if_neg hid, hjob]
  · rw [hsame]
    exact ⟨c, hc, .inl rfl⟩

/-- **The invariant rule for one case**: what a new run has, and every
transaction on its rows and every step of the case keeps. -/
theorem case_invariant {P : RunId → Case → Prop}
    (hcreate : ∀ {ctx : Context} {id : RunId} {r : RunRows}, Creates ctx r → P id ⟨r, none⟩)
    (hplane : ∀ {db : Database} {env : Env} {id : RunId} {r r' : RunRows}
      {job : Option DeliveryJob} {w : Writer}, db.runs[id]? = some r →
      r.base.core.StatusInv ∧ r.base.core.BudgetFrozen → P id ⟨r, job⟩ →
      RowStep (db.context env id) r r' w → P id ⟨r', job⟩)
    (hstep : ∀ {id : RunId} {c c' : Case}, P id c → CaseStep sha256 id c c' → P id c')
    (hd : (desk sha256).Reachable d) (hc : d.case? id = some c) : P id c := by
  have hall : DeskInv d ∧ ∀ id c, d.case? id = some c → P id c := by
    refine (desk sha256).invariant (P := fun d => DeskInv d ∧ ∀ id c, d.case? id = some c → P id c)
      ⟨DeskInv.init, fun id c hc => absurd hc (by simp [desk, Desk.case?, Desk.row?])⟩ ?_ hd
    rintro d e ⟨h, hP⟩
    refine ⟨h.step e, fun id c' hc' => ?_⟩
    rcases h.case_step e hc' with ⟨hjob, env, hcreates⟩ | hsame | ⟨c, hc, hone⟩
    · obtain ⟨rows, job⟩ := c'
      obtain rfl : job = none := hjob
      exact hcreate hcreates
    · exact hP id c' hsame
    · obtain ⟨rows, job⟩ := c
      obtain ⟨rows', job'⟩ := c'
      rcases hone with ⟨env, w, hrow, hjob⟩ | hstep'
      · obtain rfl : job' = job := hjob
        have hr := (Desk.case?_eq_some hc).1
        exact hplane hr (h.sound.reviewed hr) (hP id _ hc) hrow
      · exact hstep (hP id _ hc) hstep'
  exact hall.2 id c hc

end ControlPlane

end AgentReliability
