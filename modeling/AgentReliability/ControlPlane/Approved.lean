import AgentReliability.ControlPlane.DeliveryQueue
/-!
# What is approved is what was verified

Three kinds of request store a patch for a run, and the reviewers and the
delivery read the newest. The patch of the completion that made the run
succeed is the newest from then on: a run that has succeeded is idle, and
evidence that comes late is kept as a report. So what is approved, and
delivered, is what was verified, and the decision on it is made once.
-/

namespace AgentReliability

namespace ControlPlane

open DeliveryService

variable {sha256 : String → String} {id : RunId} {c c' : Case} {d : Desk} {r r' : RunRows}
  {ctx : Context} {seen : RunRows} {a : Approval} {snapshot : TaskSnapshot} {patch : String}

/-! ## The completion -/

theorem reports_of_transitionRun {source target : RunStatus}
    (h : transitionRun ctx source target r = .ok r') :
    r'.approvals = r.approvals ∧ r'.artifacts = r.artifacts := by
  simp only [transitionRun, appendSyntheticEvent, recordEvent, bind_eq_ok, pure_eq_ok] at h
  obtain ⟨-, -, -, -, -, -, rfl⟩ := h
  exact ⟨rfl, rfl⟩

theorem persistExtras_approvals (i : ℕ) (extras : CompleteExtras) (r : RunRows) :
    (persistExtras ctx seen i extras r).approvals = r.approvals := by
  have hclock : (persistClock ctx seen r).approvals = r.approvals := by
    unfold persistClock
    split <;> rfl
  change (persistUsage seen extras (persistClock ctx seen r)).approvals = r.approvals
  unfold persistUsage
  split
  · exact hclock
  · split <;> exact hclock

theorem persistReports_artifacts (i : ℕ) (extras : CompleteExtras) (r : RunRows) :
    (persistReports ctx i extras r).artifacts = r.artifacts
      ++ extras.patch?.toList.map (fun patch => {
          attemptId := ⟨ctx.runId, i⟩, kind := .patch, name := "fix.patch", content := patch
          sizeBytes := patch.utf8ByteSize })
      ++ extras.judge.toList.map fun judge => {
          attemptId := ⟨ctx.runId, i⟩, kind := .judgeReport, name := "judge-report.json"
          content := judge, sizeBytes := judge.utf8ByteSize } := rfl

/-- **What a successful completion leaves for the review**: one approval of
the digest of its patch, and the patch as the newest one. -/
theorem completeSucceeded_reports {i : ℕ} {extras : CompleteExtras}
    (hpatch : extras.patch? = some patch) (h : completeSucceeded ctx seen i extras r = .ok r') :
    r'.approvals = r.approvals ++ [{ patchDigest := some (ctx.sha256 patch) }] ∧
      r'.latestPatch.map (·.content) = some patch ∧ r'.run.status = .succeeded := by
  simp only [completeSucceeded, bind_eq_ok] at h
  obtain ⟨-, -, -, -, -, -, r₁, h₁, r₂, h₂, r₃, h₃, h₄⟩ := h
  obtain ⟨happ₁, hart₁⟩ := reports_of_transitionRun h₁
  obtain ⟨happ₂, hart₂⟩ := reports_of_transitionRun h₂
  have hstatus : r₂.run.status = .succeeded := by
    have := congrArg RunCore.status (transitionRun_core h₂).2
    exact this
  simp only [transitionTask, bind_eq_ok, pure_eq_ok] at h₃
  obtain ⟨-, -, -, -, rfl⟩ := h₃
  simp only [appendSyntheticEvent, recordEvent, bind_eq_ok, pure_eq_ok] at h₄
  obtain ⟨-, -, rfl⟩ := h₄
  refine ⟨?_, ?_, hstatus⟩
  · change r₂.approvals ++ [{ patchDigest := extras.patch?.map ctx.sha256 }] = _
    rw [happ₂, happ₁, persistExtras_approvals, hpatch]
    rfl
  · change (r₂.artifacts.filter fun a => a.kind = .patch).getLast?.map (·.content) = some patch
    rw [hart₂, hart₁]
    unfold persistExtras
    rw [persistReports_artifacts, hpatch]
    cases extras.judge <;> simp

/-! ## From the completion on -/

/-- **The case of a run that was verified with a patch**, under the
approval it has now. -/
structure Verified (sha256 : String → String) (snapshot : TaskSnapshot) (patch : String) (c : Case)
    (a : Approval) : Prop where
  succeeded : c.rows.run.status = .succeeded
  snapshot : c.rows.task.snapshot = some snapshot
  approvals : c.rows.approvals = [a]
  digest : a.patchDigest = some (sha256 patch)
  patch : c.rows.latestPatch.map (·.content) = some patch

/-- What a decision does to an approval, in the steps of a snapshot case:
it names the same patch, and what was decided stays so. -/
theorem CaseStep.approval (h : CaseStep sha256 id c c') (hsnapshot : c.rows.task.snapshot ≠ none)
    (ha : c.rows.approvals = [a]) :
    ∃ a', c'.rows.approvals = [a'] ∧ a'.patchDigest = a.patchDigest ∧
      (a.status ≠ .pending → a'.status = a.status) := by
  have hone : ∀ {b : Approval}, c.rows.approvals = [b] → a = b := fun hb => by
    simpa using ha.symm.trans hb
  cases h with
  | evidence => exact ⟨a, ha, rfl, fun _ => rfl⟩
  | decided => exact ⟨a, ha, rfl, fun _ => rfl⟩
  | hold => exact ⟨a, ha, rfl, fun _ => rfl⟩
  | reject _ hb hpending =>
    obtain rfl := hone hb
    exact ⟨_, approvals_decideAs ha, rfl, fun hne => absurd hpending hne⟩
  | resolve _ hb hpending =>
    obtain rfl := hone hb
    exact ⟨_, approvals_decideAs ha, rfl, fun hne => absurd hpending hne⟩
  | enqueue _ hb hpending =>
    obtain rfl := hone hb
    exact ⟨_, approvals_decideAs ha, rfl, fun hne => absurd hpending hne⟩
  | settle _ hw =>
    have hupdate : ∀ f : Approval → Approval, (c.rows.updateApproval f).approvals = [f a] := by
      intro f
      unfold RunRows.updateApproval
      rw [ha]
      rfl
    cases hw with
    | retry => exact ⟨_, hupdate _, rfl, fun _ => rfl⟩
    | exhaust now => exact ⟨_, hupdate _, rfl, fun _ => rfl⟩
    | succeed token url => exact ⟨_, hupdate _, rfl, fun _ => rfl⟩
    | fail token error => exact ⟨_, hupdate _, rfl, fun _ => rfl⟩
  | fixture _ hnone => exact absurd hnone hsnapshot

/-- **One event** leaves the case verified with its patch, and its decision
as it was made. -/
theorem DeskInv.verified_step (h : DeskInv d) (hc : d.case? id = some c)
    (hv : Verified sha256 snapshot patch c a) (e : DeskEvent) :
    ∃ c' a', ((desk sha256).step d e).case? id = some c' ∧ Verified sha256 snapshot patch c' a' ∧
      (a.status ≠ .pending → a'.status = a.status) := by
  obtain ⟨c', hc', hone⟩ : ∃ c', ((desk sha256).step d e).case? id = some c' ∧ _ :=
    h.case_step_of_some e hc
  rcases hone with rfl | ⟨env, w, hrow, -⟩ | hstep
  · exact ⟨c', a, hc', hv, fun _ => rfl⟩
  · have hr := (Desk.case?_eq_some hc).1
    have hbooks := onlyBookkeeping_of_base (h.sound.reviewed hr).1 hv.succeeded hrow
    have happrovals : c'.rows.approvals = c.rows.approvals := by rw [hbooks.1]
    have htask : c'.rows.task = c.rows.task := by rw [hbooks.1]
    have hpatch : c'.rows.latestPatch = c.rows.latestPatch := by rw [hbooks.1]; rfl
    refine ⟨c', a, hc', ⟨hbooks.status.trans hv.succeeded, ?_, happrovals.trans hv.approvals,
      hv.digest, ?_⟩, fun _ => rfl⟩
    · rw [htask]
      exact hv.snapshot
    · rw [hpatch]
      exact hv.patch
  · have hsnapshot : c.rows.task.snapshot ≠ none := by rw [hv.snapshot]; simp
    obtain ⟨a', ha', hdigest, hkept⟩ := hstep.approval hsnapshot hv.approvals
    refine ⟨c', a', hc', ⟨?_, hstep.snapshot.trans hv.snapshot, ha', hdigest.trans hv.digest, ?_⟩,
      hkept⟩
    · rw [hstep.run]
      exact hv.succeeded
    · rw [hstep.latestPatch]
      exact hv.patch

/-- **So does every run.** -/
theorem DeskInv.verified_run (h : DeskInv d) (hc : d.case? id = some c)
    (hv : Verified sha256 snapshot patch c a) (es : List DeskEvent) :
    ∃ c' a', ((desk sha256).runFrom d es).case? id = some c' ∧
      Verified sha256 snapshot patch c' a' ∧ (a.status ≠ .pending → a'.status = a.status) := by
  induction es generalizing d c a with
  | nil => exact ⟨c, a, hc, hv, fun _ => rfl⟩
  | cons e es ih =>
    obtain ⟨c₁, a₁, hc₁, hv₁, hkept₁⟩ := h.verified_step hc hv e
    obtain ⟨c₂, a₂, hc₂, hv₂, hkept₂⟩ := ih (h.step e) hc₁ hv₁
    refine ⟨c₂, a₂, hc₂, hv₂, fun hne => ?_⟩
    have hone := hkept₁ hne
    exact (hkept₂ (by rw [hone]; exact hne)).trans hone

/-- The event of a completion that reports success. -/
def completion (env : Env) (attempt : AttemptId) (token : Option LeaseToken)
    (extras : CompleteExtras) (check : LeaseCheck) (readAt : ReadAt) : Event :=
  .request env (.complete attempt token (.succeeded extras) check readAt)

/-- **A completion that commits leaves the case verified with its patch.** -/
theorem DeskInv.verified_of_completion (h : DeskInv d) {env : Env} {attempt : AttemptId}
    {token : Option LeaseToken} {extras : CompleteExtras} {check : LeaseCheck} {readAt : ReadAt}
    (hr : d.row? attempt.runId = some r) (hsnapshot : r.task.snapshot = some snapshot)
    (hpatch : extras.patch? = some patch) {db : Database}
    (hcommit : ((completion env attempt token extras check readAt).withSha sha256).commit? d.plane =
      some db) :
    ∃ c a, ((desk sha256).step d
        (.plane (completion env attempt token extras check readAt))).case? attempt.runId = some c ∧
      Verified sha256 snapshot patch c a := by
  have hcommit' := hcommit
  obtain ⟨tx, r₀, r', hprep, hr₀, hbody, rfl⟩ := Request.commit_eq_some hcommit'
  have hsucceeded : tx.runId = attempt.runId ∧ ∃ seen, completeSucceeded
      (d.plane.db.context { env with sha256 } attempt.runId) seen attempt.index extras r₀ =
        .ok r' := by
    cases Request.goesTo hprep with
    | @complete _ _ _ _ _ _ b seen => exact ⟨rfl, seen, hbody⟩
  obtain ⟨hid, seen, hsucceeded⟩ := hsucceeded
  rw [hid] at hr₀
  obtain rfl := Option.some.inj (hr.symm.trans hr₀)
  obtain ⟨happrovals, hlatest, hstatus⟩ := completeSucceeded_reports hpatch hsucceeded
  -- Before the completion the run was running, so it had no approval.
  have hnone : r.approvals = [] := by
    have hlength := approvals_of_base (h.sound.reviewed hr).1
    by_cases hs : r.run.status = .succeeded
    · have hidle := idle_of_base (h.sound.reviewed hr).1 hs
      simp only [completeSucceeded, bind_eq_ok, require_eq_ok, orThrow_eq_ok] at hsucceeded
      obtain ⟨b, hb, -, ⟨hrunning, -⟩, -⟩ := hsucceeded
      exact absurd hrunning (hidle.getElem? hb).1
    · rw [if_neg hs, List.length_eq_zero_iff] at hlength
      exact hlength
  have htask : r'.task.snapshot = some snapshot := by
    rw [(Writes.completeSucceeded hsucceeded).sameInput.task]
    exact hsnapshot
  have hplane : ((desk sha256).step d
      (.plane (completion env attempt token extras check readAt))).plane =
      ControlPlane.step d.plane ((completion env attempt token extras check readAt).withSha sha256) :=
    rfl
  have hrow : ((desk sha256).step d
      (.plane (completion env attempt token extras check readAt))).row? attempt.runId = some r' := by
    unfold Desk.row?
    rw [hplane]
    unfold ControlPlane.step
    rw [hcommit, hid]
    exact List.getElem?_set_self (List.getElem?_eq_some_iff.mp hr).1
  refine ⟨_, { patchDigest := some (sha256 patch) }, Desk.case?_of_row hrow, hstatus, htask, ?_, rfl,
    hlatest⟩
  change r'.approvals = _
  rw [happrovals, hnone, List.nil_append]
  rfl

/-! ## What is approved -/

/-- The status of an approval, by the task's. -/
theorem reviewed_iff {kind : DeliveryKind} {status : ApprovalStatus} {task : TaskStatus}
    (h : task ∈ reviewed status kind) :
    (status = .pending ↔ task = .awaitingApproval) ∧ (status = .rejected ↔ task = .rejected) ∧
      (status = .approved ↔ kind = .patch ∧ task = .resolved ∨
        kind = .pullRequest ∧ task ∈ [.approved, .prCreated, .prFailed]) := by
  revert h
  cases status <;> cases kind <;> cases task <;> decide

/-- **What is approved is what was verified and what is delivered.** From
the completion of a snapshot run with a patch on, whatever else happens:
the approval agrees with the task; a delivery job exists exactly when a
pull request was approved; the newest patch of the run is the one the
completion reported, under the digest of the approval and of the job, so
that `approve` finds it unchanged; and a decision is never followed by
another. -/
theorem approved_is_verified (sha256 : String → String) (es fs gs : List DeskEvent) {env : Env}
    {attempt : AttemptId} {token : Option LeaseToken} {extras : CompleteExtras} {check : LeaseCheck}
    {readAt : ReadAt} {r : RunRows} {snapshot : TaskSnapshot} {patch : String} {db : Database}
    (hr : ((desk sha256).run es).row? attempt.runId = some r)
    (hsnapshot : r.task.snapshot = some snapshot) (hpatch : extras.patch? = some patch)
    (hcommit : ((completion env attempt token extras check readAt).withSha sha256).commit?
      ((desk sha256).run es).plane = some db) :
    let done := es ++ .plane (completion env attempt token extras check readAt) :: fs
    ∃ (r' : RunRows) (a : Approval),
      ((desk sha256).run done).row? attempt.runId = some r' ∧ r'.approvals = [a] ∧
      ((a.status = .pending ↔ r'.task.status = .awaitingApproval) ∧
        (a.status = .rejected ↔ r'.task.status = .rejected) ∧
        (a.status = .approved ↔ snapshot.delivery.kind = .patch ∧ r'.task.status = .resolved ∨
          snapshot.delivery.kind = .pullRequest ∧
            r'.task.status ∈ [.approved, .prCreated, .prFailed])) ∧
      ((∃ job ∈ ((desk sha256).run done).jobs, job.approvalId = attempt.runId) ↔
        a.status = .approved ∧ snapshot.delivery.kind = .pullRequest) ∧
      (∃ artifact, r'.latestPatch = some artifact ∧ artifact.content = patch) ∧
      a.patchDigest = some (sha256 patch) ∧ patchUnchanged sha256 r' a ∧
      (∀ job ∈ ((desk sha256).run done).jobs, job.approvalId = attempt.runId →
        job.patchDigest = sha256 patch) ∧
      (a.status ≠ .pending → ∃ (r'' : RunRows) (a' : Approval),
        ((desk sha256).run (done ++ gs)).row? attempt.runId = some r'' ∧ r''.approvals = [a'] ∧
          a'.status = a.status) := by
  intro done
  have hreachable := (desk sha256).reachable_run es
  have hinv := deskInv_of_reachable hreachable
  obtain ⟨c₀, a₀, hc₀, hv₀⟩ := hinv.verified_of_completion hr hsnapshot hpatch hcommit
  obtain ⟨c, a, hc, hv, -⟩ := (hinv.step _).verified_run hc₀ hv₀ fs
  have hrun : (desk sha256).runFrom ((desk sha256).step ((desk sha256).run es)
      (.plane (completion env attempt token extras check readAt))) fs = (desk sha256).run done := by
    rw [Machine.run_append]
    rfl
  rw [hrun] at hc
  have hinv' := deskInv_of_reachable ((desk sha256).reachable_run done)
  obtain ⟨hrow, hjob⟩ := Desk.case?_eq_some hc
  have hcase := caseInv_of_reachable ((desk sha256).reachable_run done) hc
  obtain ⟨b, hb, hagrees⟩ := hcase.agrees hv.succeeded snapshot hv.snapshot
  obtain rfl : a = b := by simpa using hv.approvals.symm.trans hb
  obtain ⟨artifact, hartifact, hcontent⟩ := Option.map_eq_some_iff.mp hv.patch
  -- A job of this run is the job of its case.
  have hof : ∀ job ∈ ((desk sha256).run done).jobs, job.approvalId = attempt.runId →
      c.job = some job := by
    intro job hmem hkey
    rw [← hjob, ← hkey]
    exact Table.lookup_of_mem hinv'.unique hmem
  refine ⟨c.rows, a, hrow, hb, reviewed_iff hagrees.status, ⟨?_, fun happroved => ?_⟩,
    ⟨artifact, hartifact, hcontent⟩, hv.digest, ?_, fun job hmem hkey => ?_, fun hne => ?_⟩
  · rintro ⟨job, hmem, hkey⟩
    exact hagrees.job_iff.mp (by rw [hof job hmem hkey]; rfl)
  · obtain ⟨job, hsome⟩ := Option.isSome_iff_exists.mp (hagrees.job_iff.mpr happroved)
    have hlookup := hjob.trans hsome
    exact ⟨job, Table.mem_of_lookup hlookup, Table.key_of_lookup hlookup⟩
  · simp [patchUnchanged, hartifact, hcontent, hv.digest]
  · have hdigest := (hagrees.job job (hof job hmem hkey)).2
    rw [hv.digest] at hdigest
    exact (Option.some.inj hdigest).symm
  · obtain ⟨c', a', hc', hv', hkept⟩ := hinv'.verified_run hc hv gs
    rw [← Machine.run_append] at hc'
    exact ⟨c'.rows, a', (Desk.case?_eq_some hc').1, hv'.approvals, hkept hne⟩

/-- A run that was confirmed and claimed. -/
def claimedRun : List DeskEvent := [
  .plane (.confirm (envAt 0) (smallConfirm "key") 0),
  .plane (claimAt 1000 0 1 1)]

/-- A run that is completed with a patch, of which evidence comes late, and
which is approved and then rejected by two reviewers. -/
theorem approved_is_verified_of_small :
    ∃ (r : RunRows) (a : Approval),
      ((desk plainDigest).run (claimedRun ++ .plane (completion (envAt 2000) ⟨0, 0⟩ (some 7)
        { patch := some "diff" } (checkAt 2000 2) ⟨2, 2⟩) :: [
          .evidence ⟨0, 0⟩ "late", .decide 4000 0 .approved none 3 3,
          .decide 4000 0 .rejected none 3 3])).row? 0 = some r ∧
      r.approvals = [a] ∧ a.status = .approved ∧ r.task.status = .approved ∧
      ∃ artifact, r.latestPatch = some artifact ∧ artifact.content = "diff" := by
  obtain ⟨r₀, hr₀⟩ : ∃ r, ((desk plainDigest).run claimedRun).row? 0 = some r := ⟨_, rfl⟩
  have hsnapshot : r₀.task.snapshot = some smallSnapshot := by
    have : (((desk plainDigest).run claimedRun).row? 0).map (·.task.snapshot) =
        some (some smallSnapshot) := by decide
    rw [hr₀] at this
    exact Option.some.inj this
  have hcommit : (((completion (envAt 2000) ⟨0, 0⟩ (some 7) { patch := some "diff" }
      (checkAt 2000 2) ⟨2, 2⟩).withSha plainDigest).commit?
        ((desk plainDigest).run claimedRun).plane).isSome = true := by decide
  obtain ⟨db, hdb⟩ := Option.isSome_iff_exists.mp hcommit
  obtain ⟨r, a, hr, ha, ⟨-, -, happroved⟩, -, hpatch, -⟩ :=
    approved_is_verified plainDigest claimedRun [
      .evidence ⟨0, 0⟩ "late", .decide 4000 0 .approved none 3 3,
      .decide 4000 0 .rejected none 3 3] [] hr₀ hsnapshot rfl hdb
  have htask : r.task.status = .approved := by
    have : (((desk plainDigest).run (claimedRun ++ .plane (completion (envAt 2000) ⟨0, 0⟩ (some 7)
        { patch := some "diff" } (checkAt 2000 2) ⟨2, 2⟩) :: [
          .evidence ⟨0, 0⟩ "late", .decide 4000 0 .approved none 3 3,
          .decide 4000 0 .rejected none 3 3])).row? 0).map (·.task.status) = some .approved := by
      decide
    rw [hr] at this
    exact Option.some.inj this
  have hkind : smallSnapshot.delivery.kind = .pullRequest := rfl
  exact ⟨r, a, hr, ha, happroved.mpr (.inr ⟨hkind, by rw [htask]; decide⟩), htask, hpatch⟩

end ControlPlane

end AgentReliability
