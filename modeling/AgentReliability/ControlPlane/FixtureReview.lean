import AgentReliability.ControlPlane.DeliveryQueue
/-!
# The decisions on a fixture's patch

`ApprovalService.decide` checks the approval and the task of a fixture as
it read them, and then writes both without looking at them again. Two calls
that read the approval while it is pending may so both be committed. A call
is undisturbed if the approval is pending still when it commits, and a run
of the desk decides the fixture once exactly if every call in it is.
-/

namespace AgentReliability

namespace ControlPlane

/-! ## The calls -/

/-- What a call of `decide` reads: the approval, and then its task. -/
def Desk.reviewRead (d : Desk) (id : RunId) (approvalAt taskAt : ℕ) : Option (Approval × Task) := do
  guard (approvalAt ≤ taskAt)
  let before ← d.plane.runAt approvalAt id
  let seen ← before.approval?
  let seenRows ← d.plane.runAt taskAt id
  some (seen, seenRows.task)

/-- What a call of `decide` on the approval of a run comes to: the decision
it committed, or its exception. A call that finds no approval is none. -/
def Desk.answer? (sha256 : String → String) (id : RunId) (d : Desk) :
    DeskEvent → Option (Except ServiceError Decision)
  | .decide now runId decision reviewer approvalAt taskAt =>
    if runId = id then do
      let (seen, seenTask) ← d.reviewRead id approvalAt taskAt
      let r ← d.row? id
      some ((ApprovalService.decide sha256 now id decision reviewer seen seenTask r d.jobs).map
        fun _ => decision)
    else none
  | _ => none

/-- The answers of all the calls along a run of the desk. -/
def answers (sha256 : String → String) (id : RunId) (es : List DeskEvent) :
    List (Except ServiceError Decision) :=
  (desk sha256).gather (fun d e => (d.answer? sha256 id e).toList) (desk sha256).init es

/-- The decisions among the answers. -/
def committed (answers : List (Except ServiceError Decision)) : List Decision :=
  answers.filterMap Except.toOption

/-- The task statuses a decision on a fixture goes with. -/
def Decision.tasks : Decision → List TaskStatus
  | .approved => [.approved, .prCreated, .prFailed]
  | .rejected => [.rejected]

/-- **The fixture is decided once**: one answer at most is a decision and
the others are exceptions, the approval and the task say the same, and a
pull request is asked for only if that decision is an approval. -/
structure DecidedOnce (id : RunId) (d : Desk) (answers : List (Except ServiceError Decision)) :
    Prop where
  once : (committed answers).length ≤ 1
  approved : ∀ r, d.row? id = some r → ∀ a ∈ r.approvals,
    (a.status = .approved ↔ r.task.status ∈ Decision.approved.tasks)
  rejected : ∀ r, d.row? id = some r → ∀ a ∈ r.approvals,
    (a.status = .rejected ↔ r.task.status ∈ Decision.rejected.tasks)
  created : id ∈ d.creations → committed answers = [.approved]

/-- What `decide` asks of the rows it read. -/
def ApprovalService.passes (decision : Decision) (seen : Approval × Task) : Bool :=
  seen.1.status = .pending && decision.task ∈ seen.2.status.transitions

/-- **The call is undisturbed**: if what it read passes its checks, the
approval is pending still. -/
def Undisturbed (id : RunId) (d : Desk) : DeskEvent → Prop
  | .decide _ runId decision _ approvalAt taskAt =>
    runId = id → ∀ seen ∈ d.reviewRead id approvalAt taskAt, ApprovalService.passes decision seen →
      (d.row? id).any fun r => r.approvals.any fun a => a.status = .pending
  | _ => True

instance (id : RunId) (d : Desk) : ∀ e, Decidable (Undisturbed id d e)
  | .decide _ runId decision _ approvalAt taskAt =>
    inferInstanceAs (Decidable (runId = id → ∀ seen ∈ d.reviewRead id approvalAt taskAt,
      ApprovalService.passes decision seen →
      (d.row? id).any fun r => r.approvals.any fun a => a.status = .pending))
  | .plane _ | .evidence _ _ | .retryPr _ _ _ | .createPr _ _ | .exhaust _ _ _ _ | .claim _ _ _ _
  | .renew _ _ | .recordCommit _ _ | .delivered _ _ | .deliveryFailed _ _ => isTrue trivial

/-! ## What is on file -/

/-- The approvals of a run, and the status of its task. -/
def Desk.review? (d : Desk) (id : RunId) : Option (List Approval × TaskStatus) :=
  (d.row? id).map fun r => (r.approvals, r.task.status)

/-- **What is on file about a fixture**, by the decisions committed so far. -/
structure FixtureInv (id : RunId) (d : Desk) (decided : List Decision) : Prop where
  undecided : decided = [] → ∀ approvals task, d.review? id = some (approvals, task) →
    ∀ a ∈ approvals, a.status = .pending ∧ task = .awaitingApproval
  once : ∀ x, decided = [x] → ∃ a task, d.review? id = some ([a], task) ∧
    a.status = x.status ∧ task ∈ x.tasks
  creations : id ∈ d.creations → .approved ∈ decided
  /-- A call of `retryPr` that reads a failed pull request reads it in some
  version. -/
  failed : ∀ v ∈ d.plane.versions, ∀ r, v.runs[id]? = some r → r.task.status = .prFailed →
    .approved ∈ decided

variable {sha256 : String → String} {id : RunId} {d d' : Desk} {r r' : RunRows}
  {decided : List Decision} {e : DeskEvent}

/-- The run is a fixture's. -/
def IsFixture (d : Desk) (id : RunId) : Prop :=
  ∀ r, d.row? id = some r → r.task.snapshot = none

theorem Desk.review?_of_row (hr : d.row? id = some r) :
    d.review? id = some (r.approvals, r.task.status) := by
  unfold Desk.review?
  rw [hr]
  rfl

theorem Desk.row_of_review {approvals : List Approval} {task : TaskStatus}
    (h : d.review? id = some (approvals, task)) :
    ∃ r, d.row? id = some r ∧ r.approvals = approvals ∧ r.task.status = task := by
  obtain ⟨r, hr, heq⟩ := Option.map_eq_some_iff.mp h
  obtain ⟨rfl, rfl⟩ := Prod.mk.inj heq
  exact ⟨r, hr, rfl, rfl⟩

/-- An event that leaves what is on file about the fixture. -/
structure Quiet (id : RunId) (d d' : Desk) : Prop where
  review : d'.review? id = d.review? id
  creations : id ∈ d'.creations → id ∈ d.creations
  versions : ∀ v ∈ d'.plane.versions, v ∈ d.plane.versions ∨ v = d'.plane.db

theorem Quiet.refl (id : RunId) (d : Desk) : Quiet id d d := ⟨rfl, fun h => h, fun _ hv => .inl hv⟩

theorem FixtureInv.of_quiet (h : FixtureInv id d decided) (hq : Quiet id d d') :
    FixtureInv id d' decided := by
  refine ⟨?_, ?_, fun hc => h.creations (hq.creations hc), fun v hv r hr hfailed => ?_⟩
  · rw [hq.review]
    exact h.undecided
  · rw [hq.review]
    exact h.once
  · rcases hq.versions v hv with hold | rfl
    · exact h.failed v hold r hr hfailed
    · -- The newest version says of the fixture what the one before it said.
      have hreview : d'.review? id = some (r.approvals, r.task.status) := Desk.review?_of_row hr
      rw [hq.review] at hreview
      obtain ⟨x, hx, -, htask⟩ := Desk.row_of_review hreview
      exact h.failed d.plane.db Sound.db_mem x hx (htask.trans hfailed)

theorem versions_setRow (d : Desk) (id : RunId) (r : RunRows) :
    ∀ v ∈ (d.setRow id r).plane.versions,
      v ∈ d.plane.versions ∨ v = (d.setRow id r).plane.db := by
  intro v hv
  have hv : v ∈ d.plane.versions ++ [(d.setRow id r).plane.db] := hv
  rw [List.mem_append, List.mem_singleton] at hv
  exact hv

/-- The rows of another run are written. -/
theorem review?_setRow_ne {k : RunId} {x x' : RunRows} (hx : d.row? k = some x) (hne : id ≠ k) :
    (d.setRow k x').review? id = d.review? id := by
  unfold Desk.review?
  rw [Desk.row?_setRow hx, if_neg hne]

theorem review?_setRow_self (hr : d.row? id = some r) :
    (d.setRow id r').review? id = some (r'.approvals, r'.task.status) := by
  refine Desk.review?_of_row ?_
  rw [Desk.row?_setRow hr, if_pos rfl]

/-! ## The events beside the calls -/

/-- A fixture has no job, so none is settled. -/
theorem quiet_write (hd : (desk sha256).Reachable d) (hfixture : IsFixture d id) {j : ℕ}
    {w : DeliveryService.JobWrite} (hw : d.write j w = some d') : Quiet id d d' := by
  simp only [Desk.write, Option.bind_eq_bind, Option.bind_eq_some_iff, Option.guard_eq_some',
    Option.some.injEq] at hw
  obtain ⟨job, hj, _, -, r, hr, a, -, rfl⟩ := hw
  have hne : id ≠ job.approvalId := by
    rintro rfl
    obtain ⟨x, hx, -, hcase⟩ := (deskInv_of_reachable hd).of_job hj
    have hnone : (some job : Option DeliveryJob) = none :=
      (caseInv_of_reachable hd hcase).fixture (hfixture x hx)
    exact absurd hnone (by simp)
  exact ⟨review?_setRow_ne hr hne, fun h => h, versions_setRow d job.approvalId (w.rows r)⟩

theorem quiet_updateJob {j : ℕ} {admits : DeliveryJob → Bool} {f : DeliveryJob → DeliveryJob}
    (hw : d.updateJob j admits f = some d') : Quiet id d d' := by
  simp only [Desk.updateJob, Option.bind_eq_bind, Option.bind_eq_some_iff, Option.guard_eq_some',
    Option.some.injEq] at hw
  obtain ⟨job, -, _, -, rfl⟩ := hw
  exact ⟨rfl, fun h => h, fun _ hv => .inl hv⟩

theorem quiet_evidence {attempt : AttemptId} {content : String}
    (hw : d.evidence? sha256 attempt content = some d') : Quiet id d d' := by
  simp only [Desk.evidence?, Option.bind_eq_bind, Option.bind_eq_some_iff, Option.some.injEq] at hw
  obtain ⟨r, hr, a, -, _, -, rfl⟩ := hw
  refine ⟨?_, fun h => h, versions_setRow d attempt.runId _⟩
  by_cases hid : id = attempt.runId
  · subst hid
    rw [review?_setRow_self hr, Desk.review?_of_row hr]
    rfl
  · exact review?_setRow_ne hr hid

/-- **What the control plane writes of a fixture.** It opens the review, or
leaves it. -/
theorem FixtureInv.plane (hd : (desk sha256).Reachable d) (h : FixtureInv id d decided)
    (e : Event) : FixtureInv id ((desk sha256).step d (.plane e)) decided := by
  have hsound := (deskInv_of_reachable hd).sound
  have hversions : ∀ v ∈ ((desk sha256).step d (.plane e)).plane.versions, v ∈ d.plane.versions ∨
      v = ((desk sha256).step d (.plane e)).plane.db := versions_step _ _
  set d' := (desk sha256).step d (.plane e) with hd'
  -- A run whose review is not open has no decision behind it.
  have hopen : d.review? id = none ∨ (∃ task, d.review? id = some ([], task)) →
      ∀ x, decided ≠ [x] := by
    rintro hnone x hx
    obtain ⟨a, task, hreview, -⟩ := h.once x hx
    rcases hnone with hnone | ⟨t, hnone⟩ <;> rw [hreview] at hnone <;> simp at hnone
  have hkept : (∀ approvals task, d'.review? id = some (approvals, task) →
      (∀ a ∈ approvals, a.status = .pending ∧ task = .awaitingApproval) ∧ task ≠ .prFailed) →
      (∀ x, decided ≠ [x]) → FixtureInv id d' decided := by
    intro hreview hnone
    refine ⟨fun _ approvals task hr => (hreview approvals task hr).1, fun x hx => absurd hx (hnone x),
      h.creations, fun v hv r hr hfailed => ?_⟩
    rcases hversions v hv with hold | rfl
    · exact h.failed v hold r hr hfailed
    · exact absurd hfailed (hreview _ _ (Desk.review?_of_row hr)).2
  cases hr' : d'.row? id with
  | none =>
    refine hkept (fun approvals task hreview => ?_) (hopen (.inl ?_))
    · obtain ⟨x, hx, -⟩ := Desk.row_of_review hreview
      rw [hr'] at hx
      exact absurd hx (by simp)
    · by_contra hsome
      obtain ⟨⟨approvals, task⟩, hreview⟩ := Option.ne_none_iff_exists'.mp hsome
      obtain ⟨x, hx, -⟩ := Desk.row_of_review hreview
      obtain ⟨y, hy, -⟩ := (captures_of_base hsound).rows_step_of_some (e.withSha sha256) hx
      have hy : d'.row? id = some y := hy
      rw [hr'] at hy
      exact absurd hy (by simp)
  | some r' =>
    have hreview' := Desk.review?_of_row hr'
    rcases (captures_of_base hsound).rows_step (e.withSha sha256) hr' with
      ⟨env, hid, hcreates⟩ | hsame | ⟨env, r, hr, hrow, -⟩
    · -- A new run is dispatched, and under no review.
      have hinv : r'.core.StatusInv := hcreates.created.1.statusInv
      have hstatus : r'.run.status = .dispatched := hcreates.created.1.status
      have hlength : r'.approvals.length = if r'.run.status = .succeeded then 1 else 0 :=
        hinv.approvals
      have htask : r'.task.status ∈ RunCore.taskOf r'.run.status := hinv.task
      rw [hstatus, if_neg (by decide), List.length_eq_zero_iff] at hlength
      rw [hstatus] at htask
      refine hkept (fun approvals task hreview => ?_) (hopen (.inl ?_))
      · rw [hreview', hlength] at hreview
        obtain ⟨rfl, rfl⟩ := Prod.mk.inj (Option.some.inj hreview)
        refine ⟨fun a ha => absurd ha List.not_mem_nil, fun hfailed => ?_⟩
        rw [hfailed] at htask
        exact absurd htask (by decide)
      · exact Option.map_eq_none_iff.mpr (List.getElem?_eq_none (Nat.le_of_eq hid.symm))
    · refine h.of_quiet ⟨?_, fun h => h, hversions⟩
      rw [hreview', Desk.review?_of_row hsame]
    · have hbase := hsound.reviewed hr
      by_cases hs : r.run.status = .succeeded
      · have hbooks := onlyBookkeeping_of_base hbase.1 hs hrow
        refine h.of_quiet ⟨?_, fun h => h, hversions⟩
        rw [hreview', Desk.review?_of_row hr, hbooks.1]
      · have hnone : r.approvals = [] := by
          have hlength := approvals_of_base hbase.1
          rw [if_neg hs] at hlength
          exact List.length_eq_zero_iff.mp hlength
        refine hkept (fun approvals task hreview => ?_) (hopen (.inr ⟨r.task.status, ?_⟩))
        · rw [hreview'] at hreview
          obtain ⟨rfl, rfl⟩ := Prod.mk.inj (Option.some.inj hreview)
          rcases review_of_rowStep hr hbase hs hrow with ⟨-, htask, a, ha, hpending⟩ | ⟨-, ha, htask⟩
          · rw [ha, htask]
            refine ⟨fun b hb => ?_, by decide⟩
            rw [List.mem_singleton.mp hb]
            exact ⟨hpending, rfl⟩
          · rw [ha]
            exact ⟨fun b hb => absurd hb List.not_mem_nil, htask⟩
        · rw [Desk.review?_of_row hr, hnone]

/-! ## The calls on the approval -/

/-- The desk after a decision. -/
def Desk.withDecision (d : Desk) (id : RunId) (decision : Decision) (fixture : Bool)
    (x : RunRows × List DeliveryJob) : Desk :=
  { (d.setRow id x.1).setJobs x.2 with
    creations := d.creations ++ if fixture ∧ decision = .approved then [id] else [] }

/-- A call commits what `decide` makes of the rows it read and the rows
now. -/
theorem decide?_eq (now : Time) (decision : Decision) (reviewer : Option String)
    (approvalAt taskAt : ℕ) :
    d.decide? sha256 now id decision reviewer approvalAt taskAt =
      (d.reviewRead id approvalAt taskAt).bind fun seen => (d.row? id).bind fun r =>
        (ApprovalService.decide sha256 now id decision reviewer seen.1 seen.2 r d.jobs).toOption.map
          (d.withDecision id decision seen.2.snapshot.isNone) := by
  unfold Desk.decide? Desk.reviewRead
  simp only [Option.bind_eq_bind, Option.bind_assoc, Option.bind_some]
  refine congrArg (Option.bind _) (funext fun _ => ?_)
  refine congrArg (Option.bind _) (funext fun before => ?_)
  refine congrArg (Option.bind _) (funext fun seen => ?_)
  refine congrArg (Option.bind _) (funext fun seenRows => ?_)
  refine congrArg (Option.bind _) (funext fun r => ?_)
  cases ApprovalService.decide sha256 now id decision reviewer seen seenRows.task r d.jobs <;> rfl

/-- **A call is answered with its decision exactly if it commits.** -/
theorem answer?_decide (now : Time) (decision : Decision) (reviewer : Option String)
    (approvalAt taskAt : ℕ) :
    committed (d.answer? sha256 id (.decide now id decision reviewer approvalAt taskAt)).toList =
      if (d.decide? sha256 now id decision reviewer approvalAt taskAt).isSome then [decision]
      else [] := by
  simp only [Desk.answer?, decide?_eq, if_true]
  cases d.reviewRead id approvalAt taskAt with
  | none => rfl
  | some seen =>
    cases hr : d.row? id with
    | none => simp [committed]
    | some r =>
      cases hdecide : ApprovalService.decide sha256 now id decision reviewer seen.1 seen.2 r
        d.jobs <;> simp [hdecide, committed, Except.map, Except.toOption]

/-- **What a call on a fixture's approval commits.** It passed its checks on
the rows it read, and asks of the rows now only that they are there. -/
theorem decide_fixture (hd : (desk sha256).Reachable d) (hfixture : IsFixture d id) {now : Time}
    {decision : Decision} {reviewer : Option String} {approvalAt taskAt : ℕ}
    (hdecide : d.decide? sha256 now id decision reviewer approvalAt taskAt = some d') :
    ∃ seen r a, d.reviewRead id approvalAt taskAt = some seen ∧
      ApprovalService.passes decision seen ∧ d.row? id = some r ∧ r.approvals = [a] ∧
      d' = d.withDecision id decision true
        ((r.decideAs decision.status (reviewer.getD "anonymous") now).setTask decision.task,
          d.jobs) := by
  have hinv := deskInv_of_reachable hd
  rw [decide?_eq] at hdecide
  simp only [Option.bind_eq_some_iff, Option.map_eq_some_iff, toOption_eq_some] at hdecide
  obtain ⟨seen, hseen, r, hr, x, hok, rfl⟩ := hdecide
  have hnone : seen.2.snapshot = none := by
    have hread := hseen
    simp only [Desk.reviewRead, Option.bind_eq_bind, Option.bind_eq_some_iff,
      Option.some.injEq] at hread
    obtain ⟨_, -, before, -, approval, -, seenRows, hrows, rfl⟩ := hread
    exact (hinv.snapshot_of_runAt hrows hr).trans (hfixture r hr)
  unfold ApprovalService.decide at hok
  rw [hnone] at hok
  simp only [Option.isSome_none, Bool.false_eq_true, if_false, bind_eq_ok, require_eq_ok,
    orThrow_eq_ok, pure_eq_ok] at hok
  obtain ⟨-, hpending, -, htransition, a, ha, rfl⟩ := hok
  refine ⟨seen, r, a, hseen, ?_, hr, (hinv.of_approval hr ha).2, ?_⟩
  · simp [ApprovalService.passes, hpending, htransition]
  · rw [hnone]
    rfl

/-- What is on file after a decision. -/
theorem review?_decided (hr : d.row? id = some r) {a : Approval} (ha : r.approvals = [a])
    (decision : Decision) (reviewer : String) (now : Time) (fixture : Bool)
    (jobs : List DeliveryJob) :
    (d.withDecision id decision fixture
        ((r.decideAs decision.status reviewer now).setTask decision.task, jobs)).review? id =
      some ([{ a with status := decision.status, reviewer := some reviewer, decidedAt := some now }],
        decision.task) := by
  change (d.setRow id _).review? id = _
  rw [review?_setRow_self hr]
  change some ((r.decideAs decision.status reviewer now).approvals, decision.task) = _
  rw [approvals_decideAs ha]

/-- **A decision on a fixture whose approval is pending**, or a further
one. -/
theorem FixtureInv.decide (hd : (desk sha256).Reachable d) (hfixture : IsFixture d id)
    (h : FixtureInv id d decided) {now : Time} {decision : Decision} {reviewer : Option String}
    {approvalAt taskAt : ℕ}
    (hdecide : d.decide? sha256 now id decision reviewer approvalAt taskAt = some d') :
    FixtureInv id d' (decided ++ [decision]) := by
  obtain ⟨seen, r, a, -, -, hr, ha, rfl⟩ := decide_fixture hd hfixture hdecide
  have hreview := review?_decided hr ha decision (reviewer.getD "anonymous") now true d.jobs
  refine ⟨fun hnil => absurd hnil (by simp), fun x hx => ?_, fun hc => ?_, fun v hv x hx hfailed => ?_⟩
  · obtain ⟨rfl, hx⟩ := List.append_eq_singleton_iff.mp hx |>.resolve_right (by simp)
    obtain rfl : decision = x := by simpa using hx
    refine ⟨_, _, hreview, rfl, ?_⟩
    cases decision <;> decide
  · rcases List.mem_append.mp hc with hc | hc
    · exact List.mem_append_left _ (h.creations hc)
    · split at hc
      · rename_i happroved
        rw [happroved.2]
        simp
      · exact absurd hc List.not_mem_nil
  · rcases versions_setRow d id _ v hv with hold | rfl
    · exact List.mem_append_left _ (h.failed v hold x hx hfailed)
    · obtain ⟨y, hy, -, htask⟩ := Desk.row_of_review hreview
      obtain rfl := Option.some.inj (hy.symm.trans hx)
      rw [hfailed] at htask
      cases decision <;> exact absurd htask (by decide)

/-- A pull request that is made again, or that has been made: the review
was approved. -/
theorem FixtureInv.approvedWrite (h : FixtureInv id d decided) (happroved : .approved ∈ decided)
    (hr : d.row? id = some r) (r' : RunRows) {approvals : List Approval}
    (hkept : ∀ a, r.approvals = [a] → ∃ a', approvals = [a'] ∧ a'.status = a.status)
    (hreview : d'.review? id = some (approvals, r'.task.status))
    (htask : r'.task.status ∈ Decision.approved.tasks) :
    FixtureInv id d' decided := by
  refine ⟨fun hnil => ?_, fun x hx => ?_, fun _ => happroved, fun _ _ _ _ _ => happroved⟩
  · rw [hnil] at happroved
    exact absurd happroved List.not_mem_nil
  · obtain ⟨a, task, hold, hstatus, -⟩ := h.once x hx
    rw [Desk.review?_of_row hr] at hold
    obtain ⟨happrovals, -⟩ := Prod.mk.inj (Option.some.inj hold)
    obtain ⟨a', ha', hsame⟩ := hkept a happrovals
    rw [hx] at happroved
    obtain rfl := List.mem_singleton.mp happroved
    exact ⟨a', _, by rw [hreview, ha'], hsame.trans hstatus, htask⟩

theorem FixtureInv.retryPr (hd : (desk sha256).Reachable d) (hfixture : IsFixture d id)
    (h : FixtureInv id d decided) {taskAt jobAt : ℕ}
    (hretry : d.retryPr? id taskAt jobAt = some d') : FixtureInv id d' decided := by
  have hinv := deskInv_of_reachable hd
  simp only [Desk.retryPr?, Option.bind_eq_bind, Option.bind_eq_some_iff] at hretry
  obtain ⟨seenRows, hseen, a, ha, hretry⟩ := hretry
  obtain ⟨x, hx, -⟩ := hinv.succeeded_of_runAt hseen ha
  have hnone : ¬ seenRows.task.snapshot.isSome := by
    rw [hinv.snapshot_of_runAt hseen hx, hfixture x hx]
    exact Bool.false_ne_true
  rw [if_neg hnone] at hretry
  simp only [Option.bind_eq_some_iff, Option.guard_eq_some', Option.some.injEq] at hretry
  obtain ⟨_, hfailed, r, hr, rfl⟩ := hretry
  obtain ⟨v, hv, -, hrun⟩ := Sound.of_runAt hseen
  refine h.approvedWrite (h.failed v hv seenRows hrun hfailed) hr
    (r.setTask .approved) (fun b hb => ⟨b, hb, rfl⟩) (review?_setRow_self hr) ?_
  exact List.mem_cons_self

theorem FixtureInv.createPr (h : FixtureInv id d decided) {call : ℕ}
    (hcall : d.creations[call]? = some id) {made : Except String String}
    (hcreate : d.createPr? call made = some d') : FixtureInv id d' decided := by
  simp only [Desk.createPr?, hcall, Option.bind_eq_bind, Option.bind_eq_some_iff,
    Option.some.injEq] at hcreate
  obtain ⟨k, rfl, r, hr, a, -, rfl⟩ := hcreate
  have happroved := h.creations (List.mem_of_getElem? hcall)
  cases made with
  | ok url =>
    refine h.approvedWrite happroved hr (ApprovalService.createPr (.ok url) r)
      (fun b hb => ?_) (review?_setRow_self hr) ?_
    · exact ⟨{ b with prUrl := some url, prError := none }, by
        change r.approvals.modifyHead _ = _
        rw [hb]
        rfl, rfl⟩
    · change TaskStatus.prCreated ∈ _
      decide
  | error message =>
    refine h.approvedWrite happroved hr (ApprovalService.createPr (.error message) r)
      (fun b hb => ?_) (review?_setRow_self hr) ?_
    · exact ⟨{ b with prError := some message }, by
        change r.approvals.modifyHead _ = _
        rw [hb]
        rfl, rfl⟩
    · change TaskStatus.prFailed ∈ _
      decide

/-! ## Whole runs -/

/-- A call on another run's approval. -/
theorem quiet_decide {k : RunId} (hne : id ≠ k) {now : Time} {decision : Decision}
    {reviewer : Option String} {approvalAt taskAt : ℕ}
    (hdecide : d.decide? sha256 now k decision reviewer approvalAt taskAt = some d') :
    Quiet id d d' := by
  rw [decide?_eq] at hdecide
  simp only [Option.bind_eq_some_iff, Option.map_eq_some_iff] at hdecide
  obtain ⟨seen, -, r, hr, x, -, rfl⟩ := hdecide
  refine ⟨review?_setRow_ne hr hne, fun hc => ?_, versions_setRow d k x.1⟩
  rcases List.mem_append.mp hc with hc | hc
  · exact hc
  · split at hc
    · exact absurd (List.mem_singleton.mp hc) hne
    · exact absurd hc List.not_mem_nil

theorem quiet_retryPr (hd : (desk sha256).Reachable d) (hfixture : IsFixture d id) {k : RunId}
    (hne : id ≠ k) {taskAt jobAt : ℕ} (hretry : d.retryPr? k taskAt jobAt = some d') :
    Quiet id d d' := by
  simp only [Desk.retryPr?, Option.bind_eq_bind, Option.bind_eq_some_iff] at hretry
  obtain ⟨seenRows, -, a, -, hretry⟩ := hretry
  split at hretry
  · simp only [Option.bind_eq_some_iff] at hretry
    obtain ⟨jobs, -, j, -, job, -, _, -, hwrite⟩ := hretry
    exact quiet_write hd hfixture hwrite
  · simp only [Option.bind_eq_some_iff, Option.some.injEq] at hretry
    obtain ⟨_, -, r, hr, rfl⟩ := hretry
    refine ⟨review?_setRow_ne hr hne, fun hc => ?_, versions_setRow d k _⟩
    rcases List.mem_append.mp hc with hc | hc
    · exact hc
    · exact absurd (List.mem_singleton.mp hc) hne

theorem quiet_createPr {call : ℕ} {k : RunId} (hcall : d.creations[call]? = some k) (hne : id ≠ k)
    {made : Except String String} (hcreate : d.createPr? call made = some d') : Quiet id d d' := by
  simp only [Desk.createPr?, hcall, Option.bind_eq_bind, Option.bind_eq_some_iff,
    Option.some.injEq] at hcreate
  obtain ⟨k, rfl, r, hr, a, -, rfl⟩ := hcreate
  exact ⟨review?_setRow_ne hr hne, fun h => h, versions_setRow d k _⟩

/-- The desk where an event commits nothing. -/
theorem desk_step_of_none (h : d.commit? sha256 e = none) : (desk sha256).step d e = d := by
  change (d.commit? sha256 e).getD d = d
  rw [h]
  rfl

theorem desk_step_of_some (h : d.commit? sha256 e = some d') : (desk sha256).step d e = d' := by
  change (d.commit? sha256 e).getD d = d'
  rw [h]
  rfl

/-- **What is on file after an event**, with the decision it made. -/
theorem FixtureInv.step (hd : (desk sha256).Reachable d) (hfixture : IsFixture d id)
    (h : FixtureInv id d decided) (e : DeskEvent) :
    FixtureInv id ((desk sha256).step d e)
      (decided ++ committed (d.answer? sha256 id e).toList) := by
  have hquiet : (∀ d', d.commit? sha256 e = some d' → Quiet id d d') →
      committed (d.answer? sha256 id e).toList = [] →
      FixtureInv id ((desk sha256).step d e)
        (decided ++ committed (d.answer? sha256 id e).toList) := by
    intro hq hnone
    rw [hnone, List.append_nil]
    cases hc : d.commit? sha256 e with
    | none => rw [desk_step_of_none hc]; exact h
    | some d' => rw [desk_step_of_some hc]; exact h.of_quiet (hq d' hc)
  cases e with
  | plane e =>
    rw [show committed (d.answer? sha256 id (.plane e)).toList = [] from rfl, List.append_nil]
    exact h.plane hd e
  | evidence attempt content => exact hquiet (fun _ hc => quiet_evidence hc) rfl
  | decide now k decision reviewer approvalAt taskAt =>
    by_cases hid : id = k
    · subst hid
      rw [answer?_decide]
      cases hc : d.decide? sha256 now id decision reviewer approvalAt taskAt with
      | none =>
        rw [desk_step_of_none (e := .decide now id decision reviewer approvalAt taskAt) hc]
        simpa using h
      | some d' =>
        rw [desk_step_of_some (e := .decide now id decision reviewer approvalAt taskAt) hc]
        exact h.decide hd hfixture hc
    · refine hquiet (fun _ hc => quiet_decide hid hc) ?_
      simp only [Desk.answer?]
      rw [if_neg fun hk => hid hk.symm]
      rfl
  | retryPr k taskAt jobAt =>
    by_cases hid : id = k
    · subst hid
      rw [show committed (d.answer? sha256 id (.retryPr id taskAt jobAt)).toList = [] from rfl,
        List.append_nil]
      cases hc : d.retryPr? id taskAt jobAt with
      | none => rw [desk_step_of_none (e := .retryPr id taskAt jobAt) hc]; exact h
      | some d' =>
        rw [desk_step_of_some (e := .retryPr id taskAt jobAt) hc]
        exact h.retryPr hd hfixture hc
    · exact hquiet (fun _ hc => quiet_retryPr hd hfixture hid hc) rfl
  | createPr call made =>
    rw [show committed (d.answer? sha256 id (.createPr call made)).toList = [] from rfl,
      List.append_nil]
    cases hc : d.createPr? call made with
    | none => rw [desk_step_of_none (e := .createPr call made) hc]; exact h
    | some d' =>
      rw [desk_step_of_some (e := .createPr call made) hc]
      obtain ⟨k, hcall, -⟩ := Option.bind_eq_some_iff.mp hc
      by_cases hid : id = k
      · subst hid
        exact h.createPr hcall hc
      · exact h.of_quiet (quiet_createPr hcall hid hc)
  | exhaust readNow now j jobAt =>
    refine hquiet (fun d' hc => ?_) rfl
    simp only [Desk.commit?, Desk.exhaust?, Option.bind_eq_bind, Option.bind_eq_some_iff] at hc
    obtain ⟨jobs, -, job, -, _, -, hwrite⟩ := hc
    exact quiet_write hd hfixture hwrite
  | claim readNow now token jobAt =>
    refine hquiet (fun d' hc => ?_) rfl
    simp only [Desk.commit?, Desk.claim?, Option.bind_eq_bind, Option.bind_eq_some_iff,
      Option.some.injEq] at hc
    obtain ⟨jobs, -, j, -, candidate, -, d₁, hupdate, rfl⟩ := hc
    have hq : Quiet id d d₁ := quiet_updateJob hupdate
    exact ⟨hq.review, hq.creations, hq.versions⟩
  | renew now execution =>
    refine hquiet (fun d' hc => ?_) rfl
    simp only [Desk.commit?, Desk.renew?, Option.bind_eq_bind, Option.bind_eq_some_iff] at hc
    obtain ⟨⟨j, token⟩, -, hupdate⟩ := hc
    exact quiet_updateJob hupdate
  | recordCommit execution commit =>
    refine hquiet (fun d' hc => ?_) rfl
    simp only [Desk.commit?, Desk.recordCommit?, Option.bind_eq_bind, Option.bind_eq_some_iff] at hc
    obtain ⟨⟨j, token⟩, -, hupdate⟩ := hc
    exact quiet_updateJob hupdate
  | delivered execution url =>
    refine hquiet (fun d' hc => ?_) rfl
    simp only [Desk.commit?, Desk.delivered?, Option.bind_eq_bind, Option.bind_eq_some_iff] at hc
    obtain ⟨⟨j, token⟩, -, hwrite⟩ := hc
    exact quiet_write hd hfixture hwrite
  | deliveryFailed execution error =>
    refine hquiet (fun d' hc => ?_) rfl
    simp only [Desk.commit?, Desk.deliveryFailed?, Option.bind_eq_bind,
      Option.bind_eq_some_iff] at hc
    obtain ⟨⟨j, token⟩, -, hwrite⟩ := hc
    exact quiet_write hd hfixture hwrite

/-- A run keeps its snapshot, or its lack of one. -/
theorem isFixture_of_step (hd : (desk sha256).Reachable d) {e : DeskEvent}
    (h : IsFixture ((desk sha256).step d e) id) : IsFixture d id := by
  intro r hr
  have hinv := deskInv_of_reachable hd
  obtain ⟨c', hc', hone⟩ := hinv.case_step_of_some e (Desk.case?_of_row hr)
  have hnone := h c'.rows (Desk.case?_eq_some hc').1
  rcases hone with rfl | ⟨env, w, hrow, -⟩ | hstep
  · exact hnone
  · have hbase := hinv.sound.reviewed hr
    by_cases hs : r.run.status = .succeeded
    · rw [← hnone, (onlyBookkeeping_of_base hbase.1 hs hrow).1]
    · rw [RunRows.base_of_ne hs] at hbase
      have hlater := RunCore.Later.of_step (hrow.core hr hbase.1 hbase.2)
      have hsnapshot : c'.rows.task.snapshot = r.task.snapshot := hlater.snapshot
      rw [← hsnapshot]
      exact hnone
  · rw [← hnone, hstep.snapshot]

theorem committed_append (xs ys : List (Except ServiceError Decision)) :
    committed (xs ++ ys) = committed xs ++ committed ys := List.filterMap_append

/-- The decisions after one more event. -/
theorem committed_concat (es : List DeskEvent) (e : DeskEvent) :
    committed (answers sha256 id (es ++ [e])) = committed (answers sha256 id es) ++
      committed (((desk sha256).run es).answer? sha256 id e).toList := by
  unfold answers
  rw [Machine.gather_concat, committed_append]

/-- **What is on file after any run of the desk.** -/
theorem fixtureInv_of_run (es : List DeskEvent) (h : IsFixture ((desk sha256).run es) id) :
    FixtureInv id ((desk sha256).run es) (committed (answers sha256 id es)) := by
  induction es using List.reverseRecOn with
  | nil =>
    have hnone : ((desk sha256).run []).review? id = none := rfl
    refine ⟨fun _ approvals task hreview => absurd hreview (by simp [hnone]),
      fun x hx => absurd hx (by simp [answers, Machine.gather, committed]),
      fun hc => absurd hc List.not_mem_nil, fun v hv r hr => ?_⟩
    have hv : v ∈ [({} : Database)] := hv
    rw [List.mem_singleton.mp hv] at hr
    exact absurd hr (by simp)
  | append_singleton es e ih =>
    rw [Machine.run_concat] at h ⊢
    have hd := (desk sha256).reachable_run es
    have hbefore := isFixture_of_step hd h
    rw [committed_concat]
    exact (ih hbefore).step hd hbefore e

theorem isFixture_of_append (es fs : List DeskEvent)
    (h : IsFixture ((desk sha256).run (es ++ fs)) id) : IsFixture ((desk sha256).run es) id := by
  induction fs using List.reverseRecOn with
  | nil => simpa using h
  | append_singleton fs f ih =>
    rw [← List.append_assoc, Machine.run_concat] at h
    exact ih (isFixture_of_step ((desk sha256).reachable_run (es ++ fs)) h)

/-! ## Decided once -/

/-- A call that passes its checks on a fixture commits, whatever was
decided since it read. -/
theorem decide?_isSome (hd : (desk sha256).Reachable d) (hfixture : IsFixture d id) (now : Time)
    {decision : Decision} (reviewer : Option String) {approvalAt taskAt : ℕ}
    {seen : Approval × Task} (hseen : d.reviewRead id approvalAt taskAt = some seen)
    (hpasses : ApprovalService.passes decision seen) :
    (∃ r a, d.row? id = some r ∧ r.approvals = [a]) ∧
      (d.decide? sha256 now id decision reviewer approvalAt taskAt).isSome := by
  have hinv := deskInv_of_reachable hd
  have hread := hseen
  simp only [Desk.reviewRead, Option.bind_eq_bind, Option.bind_eq_some_iff,
    Option.some.injEq] at hread
  obtain ⟨_, -, before, hbefore, approval, happroval, seenRows, hrows, rfl⟩ := hread
  obtain ⟨r, hr, hs⟩ := hinv.succeeded_of_runAt hbefore happroval
  obtain ⟨a, ha⟩ : ∃ a, r.approvals = [a] := by
    have hlength := approvals_of_base (hinv.sound.reviewed hr).1
    rw [if_pos hs] at hlength
    exact List.length_eq_one_iff.mp hlength
  refine ⟨⟨r, a, hr, ha⟩, ?_⟩
  have hnone : seenRows.task.snapshot = none :=
    (hinv.snapshot_of_runAt hrows hr).trans (hfixture r hr)
  have happroval? : r.approval? = some a := by
    unfold RunRows.approval?
    rw [ha]
    rfl
  simp only [ApprovalService.passes, Bool.and_eq_true, decide_eq_true_eq] at hpasses
  obtain ⟨hpending, htransition⟩ := hpasses
  rw [decide?_eq, hseen, Option.bind_some, hr, Option.bind_some, Option.isSome_map]
  unfold ApprovalService.decide
  simp [hnone, hpending, htransition, require, happroval?, orThrow, Except.toOption, bind,
    Except.bind, pure, Except.pure]

/-- **An undisturbed call decides a fixture nobody decided before.** -/
theorem FixtureInv.undecided_of_undisturbed (hd : (desk sha256).Reachable d)
    (hfixture : IsFixture d id) (h : FixtureInv id d decided) (hlength : decided.length ≤ 1)
    (he : Undisturbed id d e) :
    (decided ++ committed (d.answer? sha256 id e).toList).length ≤ 1 := by
  cases e with
  | decide now k decision reviewer approvalAt taskAt =>
    by_cases hid : k = id
    · subst hid
      rw [answer?_decide]
      cases hc : d.decide? sha256 now k decision reviewer approvalAt taskAt with
      | none => simpa using hlength
      | some d' =>
        obtain ⟨seen, r, a, hseen, hpasses, hr, ha, -⟩ := decide_fixture hd hfixture hc
        have hpending := he rfl seen hseen hpasses
        rw [hr] at hpending
        have hpending : a.status = .pending := by simpa [ha] using hpending
        have hnil : decided = [] := by
          by_contra hne
          have hpos := List.length_pos_iff.mpr hne
          obtain ⟨x, hx⟩ := List.length_eq_one_iff.mp (show decided.length = 1 by omega)
          obtain ⟨b, task, hreview, hstatus, -⟩ := h.once x hx
          rw [Desk.review?_of_row hr, ha] at hreview
          obtain rfl : a = b := by simpa using (Prod.mk.inj (Option.some.inj hreview)).1
          rw [hpending] at hstatus
          cases x <;> exact absurd hstatus (by decide)
        rw [hnil]
        simp
    · have hnone : committed (d.answer? sha256 id
          (.decide now k decision reviewer approvalAt taskAt)).toList = [] := by
        simp only [Desk.answer?]
        rw [if_neg hid]
        rfl
      rw [hnone, List.append_nil]
      exact hlength
  | _ => simpa [Desk.answer?, committed] using hlength

/-- One decision at most, and what is on file goes with it. -/
theorem FixtureInv.decidedOnce {answers : List (Except ServiceError Decision)}
    (h : FixtureInv id d (committed answers)) (hlength : (committed answers).length ≤ 1) :
    DecidedOnce id d answers := by
  have hfile : ∀ r, d.row? id = some r → ∀ a ∈ r.approvals,
      (a.status = .pending ∧ r.task.status = .awaitingApproval) ∨
        ∃ x : Decision, a.status = x.status ∧ r.task.status ∈ x.tasks := by
    intro r hr a ha
    rcases Nat.eq_zero_or_pos (committed answers).length with hzero | hpos
    · exact .inl (h.undecided (List.length_eq_zero_iff.mp hzero) _ _ (Desk.review?_of_row hr) a ha)
    · obtain ⟨x, hx⟩ := List.length_eq_one_iff.mp (show (committed answers).length = 1 by omega)
      obtain ⟨b, task, hreview, hstatus, htask⟩ := h.once x hx
      rw [Desk.review?_of_row hr] at hreview
      obtain ⟨happrovals, rfl⟩ := Prod.mk.inj (Option.some.inj hreview)
      rw [happrovals] at ha
      rw [List.mem_singleton.mp ha]
      exact .inr ⟨x, hstatus, htask⟩
  refine ⟨hlength, fun r hr a ha => ?_, fun r hr a ha => ?_, fun hc => ?_⟩
  · rcases hfile r hr a ha with ⟨hstatus, htask⟩ | ⟨x, hstatus, htask⟩
    · rw [hstatus, htask]
      decide
    · rw [hstatus]
      cases x with
      | approved => exact ⟨fun _ => htask, fun _ => rfl⟩
      | rejected =>
        rw [List.mem_singleton.mp htask]
        decide
  · rcases hfile r hr a ha with ⟨hstatus, htask⟩ | ⟨x, hstatus, htask⟩
    · rw [hstatus, htask]
      decide
    · rw [hstatus]
      cases x with
      | rejected => exact ⟨fun _ => htask, fun _ => rfl⟩
      | approved =>
        refine ⟨fun he => absurd he (by decide), fun hmem => ?_⟩
        rw [List.mem_singleton.mp hmem] at htask
        exact absurd htask (by decide)
  · have happroved := h.creations hc
    obtain ⟨x, hx⟩ := List.length_eq_one_iff.mp
      (Nat.le_antisymm hlength (List.length_pos_of_mem happroved))
    rw [hx] at happroved ⊢
    rw [List.mem_singleton.mp happroved]

/-- Two reviewers read a finished fixture before either decides, and its
pull request is made last. -/
def racedReview : List DeskEvent := [
  .plane (.createTask (envAt 0) { fixtureId := "fake", agentKind := .selfLanggraph }),
  .plane (claimAt 1000 0 1 1),
  .plane (.request (envAt 2000) (.complete ⟨0, 0⟩ (some 7) (.succeeded { patch := some "diff" })
    (checkAt 2000 2) ⟨2, 2⟩)),
  .decide 3000 0 .approved (some "one") 3 3,
  .decide 3001 0 .rejected (some "two") 3 3,
  .createPr 0 (.ok "https://example.test/pull/1")]

/-- **Both decisions are committed**, the approval is rejected and the task
has a pull request. -/
theorem not_decidedOnce_of_raced :
    ¬ ∀ (sha256 : String → String) (es : List DeskEvent) (id : RunId),
      IsFixture ((desk sha256).run es) id →
      DecidedOnce id ((desk sha256).run es) (answers sha256 id es) := by
  intro h
  have hfixture : IsFixture ((desk plainDigest).run racedReview) 0 := by
    intro r hr
    have hnone : (((desk plainDigest).run racedReview).row? 0).map (·.task.snapshot.isNone) =
        some true := by decide
    rw [hr] at hnone
    simpa using hnone
  have honce := (h plainDigest racedReview 0 hfixture).once
  have htwo : (committed (answers plainDigest 0 racedReview)).length = 2 := by decide
  omega

/-- **A fixture is decided once exactly in the runs whose calls are
undisturbed.** -/
theorem decidedOnce_iff_undisturbed (sha256 : String → String) (es : List DeskEvent) (id : RunId)
    (hfixture : IsFixture ((desk sha256).run es) id) :
    (∀ before after, es = before ++ after →
      DecidedOnce id ((desk sha256).run before) (answers sha256 id before)) ↔
    (desk sha256).Admits (Undisturbed id) (desk sha256).init es := by
  constructor
  · intro h
    refine (desk sha256).admits_iff.mpr fun before e after hes => ?_
    have hd := (desk sha256).reachable_run before
    have hfix : IsFixture ((desk sha256).run before) id :=
      isFixture_of_append before (e :: after) (hes ▸ hfixture)
    have hinv := fixtureInv_of_run before hfix
    change Undisturbed id ((desk sha256).run before) e
    cases e with
    | decide now k decision reviewer approvalAt taskAt =>
      rintro rfl seen hseen hpasses
      obtain ⟨⟨r, a, hr, ha⟩, hsome⟩ := decide?_isSome hd hfix now reviewer hseen hpasses
      -- The call commits, so its decision is the only one.
      have honce := (h (before ++ [.decide now k decision reviewer approvalAt taskAt]) after
        (by simp [hes])).once
      rw [committed_concat, answer?_decide, if_pos hsome, List.length_append,
        List.length_singleton] at honce
      have hnil : committed (answers sha256 k before) = [] :=
        List.length_eq_zero_iff.mp (by omega)
      have hpending := (hinv.undecided hnil _ _ (Desk.review?_of_row hr) a
        (by rw [ha]; exact List.mem_singleton_self a)).1
      rw [hr]
      simp [ha, hpending]
    | _ => trivial
  · intro h before after hes
    have hfix : ∀ before after, es = before ++ after → IsFixture ((desk sha256).run before) id :=
      fun before after hes => isFixture_of_append before after (hes ▸ hfixture)
    refine (fixtureInv_of_run before (hfix before after hes)).decidedOnce ?_
    -- By induction on the run: every undisturbed call finds nothing decided.
    induction before using List.reverseRecOn generalizing after with
    | nil => exact Nat.zero_le _
    | append_singleton before e ih =>
      rw [List.append_assoc, List.singleton_append] at hes
      have hbefore := hfix before _ hes
      rw [committed_concat]
      exact (fixtureInv_of_run before hbefore).undecided_of_undisturbed
        ((desk sha256).reachable_run before) hbefore (ih _ hes)
        ((desk sha256).admits_iff.mp h before e after hes)

/-- A second reviewer who reads after the first has decided. -/
def orderedReview : List DeskEvent := [
  .plane (.createTask (envAt 0) { fixtureId := "fake", agentKind := .selfLanggraph }),
  .plane (claimAt 1000 0 1 1),
  .plane (.request (envAt 2000) (.complete ⟨0, 0⟩ (some 7) (.succeeded { patch := some "diff" })
    (checkAt 2000 2) ⟨2, 2⟩)),
  .decide 3000 0 .approved (some "one") 3 3,
  .createPr 0 (.error "refused"),
  .decide 3001 0 .rejected (some "two") 4 5]

/-- The first decision stands. -/
theorem decidedOnce_of_ordered :
    (desk plainDigest).Admits (Undisturbed 0) (desk plainDigest).init orderedReview ∧
      committed (answers plainDigest 0 orderedReview) = [.approved] ∧
      (answers plainDigest 0 orderedReview).length = 2 ∧
      DecidedOnce 0 ((desk plainDigest).run orderedReview) (answers plainDigest 0 orderedReview) := by
  have hfixture : IsFixture ((desk plainDigest).run orderedReview) 0 := by
    intro r hr
    have hnone : (((desk plainDigest).run orderedReview).row? 0).map (·.task.snapshot.isNone) =
        some true := by decide
    rw [hr] at hnone
    simpa using hnone
  have hadmits : (desk plainDigest).Admits (Undisturbed 0) (desk plainDigest).init orderedReview := by
    decide
  refine ⟨hadmits, by decide, by decide, ?_⟩
  exact (decidedOnce_iff_undisturbed plainDigest orderedReview 0 hfixture).mpr hadmits orderedReview
    [] (List.append_nil _).symm

end ControlPlane

end AgentReliability
