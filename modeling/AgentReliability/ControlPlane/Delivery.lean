import AgentReliability.Common.Table
import AgentReliability.ControlPlane.System
/-!
# Review and delivery

`ApprovalService` and `DeliveryService`: a person decides on the patch of
a run that succeeded, and an approved pull request is queued as a job that
the ticks of any number of processes claim, carry out and settle. None of
these transactions takes the lock of the run row. The machine here adds
them, and the upload of evidence, to the control plane.

What `DeliveryService.deliver` does to the code host is the subject of
`Deliver`; here a delivery ends with some URL or some error.
-/

namespace AgentReliability

namespace ControlPlane

namespace RunRows

variable (r : RunRows)

/-- The run's row of the approval table. -/
def approval? : Option Approval := r.approvals.head?

/-- `approval.update` of the run's approval. -/
def updateApproval (f : Approval → Approval) : RunRows :=
  { r with approvals := r.approvals.modifyHead f }

/-- The columns a decision writes. -/
def decideAs (status : ApprovalStatus) (reviewer : String) (now : Time) : RunRows :=
  r.updateApproval fun a => { a with status, reviewer := some reviewer, decidedAt := some now }

/-- `artifact.findFirst({ where: { kind: 'PATCH' }, orderBy: { createdAt: 'desc' } })`. -/
def latestPatch : Option Artifact := (r.artifacts.filter fun a => a.kind = .patch).getLast?

end RunRows

/-- `deliveryBranch`. -/
def deliveryBranch (taskId : RunId) (digest : String) : String :=
  let short := String.ofList (digest.toList.take 12)
  s!"arp-fix/{taskId}-{short}"

/-! ## The delivery service -/

namespace DeliveryService

/-- `reviewer || 'local-user'`. -/
def reviewerOr (reviewer : Option String) : String :=
  (reviewer.filter (· ≠ "")).getD "local-user"

/-- `DeliveryService.reject`. -/
def reject (now : Time) (reviewer : Option String) (r : RunRows) : Except ServiceError RunRows := do
  let a ← orThrow r.approval? ServiceError.recordNotFound
  if a.status = .rejected then pure r
  else
    require (a.status = .pending) (ServiceError.conflict "Approval is no longer pending")
    pure ((r.decideAs .rejected (reviewerOr reviewer) now).setTask .rejected)

/-- The newest patch of the run is the one its approval is about. -/
def patchUnchanged (sha256 : String → String) (r : RunRows) (a : Approval) : Bool :=
  r.latestPatch.any fun patch => some (sha256 patch.content) = a.patchDigest

/-- `DeliveryService.approve`, with the job table. -/
def approve (sha256 : String → String) (now : Time) (runId : RunId) (reviewer : Option String)
    (r : RunRows) (jobs : List DeliveryJob) : Except ServiceError (RunRows × List DeliveryJob) := do
  let a ← orThrow r.approval? ServiceError.recordNotFound
  if a.status = .approved then pure (r, jobs)
  else
    require (a.status = .pending) (ServiceError.conflict "Approval is no longer pending")
    let snapshot ← orThrow r.task.snapshot ServiceError.invalidPayload
    require (patchUnchanged sha256 r a) (ServiceError.conflict "Approved patch identity changed")
    let r := r.decideAs .approved (reviewerOr reviewer) now
    if snapshot.delivery.kind = .patch then pure (r.setTask .resolved, jobs)
    else
      -- `approvalId` is unique in the job table.
      require (∀ job ∈ jobs, job.approvalId ≠ runId) ServiceError.uniqueViolation
      let digest := a.patchDigest.getD ""
      pure (r.setTask .approved, jobs ++ [{
        approvalId := runId, patchDigest := digest, branch := deliveryBranch runId digest }])

/-- A transaction on a job, its approval and its task: the `where` of the
job's `updateMany` beside the id, and what is written where it matched. -/
structure JobWrite where
  admits : DeliveryJob → Bool
  job : DeliveryJob → DeliveryJob
  rows : RunRows → RunRows

/-- A lease that has run out (`leaseExpiresAt: { lt: new Date() }`). -/
def leaseOver (now : Time) (job : DeliveryJob) : Bool :=
  job.leaseExpiresAt.any fun expires => expires < now

/-- The job is executed under this token. -/
def heldBy (token : LeaseToken) (job : DeliveryJob) : Bool :=
  job.leaseToken = some token && job.status = .running

/-- The transaction of `retry`. -/
def retry : JobWrite where
  admits job := job.status = .failed && job.attempts < 5
  job job := { job with status := .queued, error := none }
  rows r := ((r.updateApproval fun a => { a with prError := none }).setTask .approved).setReason none

/-- `tick`, on a job whose attempts are used up. -/
def exhaust (now : Time) : JobWrite where
  admits job := job.status = .running && leaseOver now job
  job job := { job with
    status := .failed, error := some "Delivery retry budget exhausted; patch retained" }
  rows r := (r.updateApproval fun a => { a with
    prError := some "Delivery retry budget exhausted; patch retained" }).setTask .prFailed

/-- `tick`, after a delivery that returned a URL. -/
def succeed (token : LeaseToken) (url : String) : JobWrite where
  admits := heldBy token
  job job := { job with status := .succeeded, prUrl := some url, error := none }
  rows r := (r.updateApproval fun a => { a with prUrl := some url, prError := none }).setTask
    .prCreated

/-- What a delivery ends with when it does not return: a conflict with the
text it was raised with, or any other error. -/
inductive DeliveryError where
  | conflict (message : String)
  | other
  deriving DecidableEq, Repr

def DeliveryError.message : DeliveryError → String
  | conflict message => message
  | other =>
    "Delivery failed; check GitHub permissions, branch state and connectivity. Patch retained."

def DeliveryError.status : DeliveryError → JobStatus
  | conflict _ => .needsAttention
  | other => .failed

/-- `tick`, after a delivery that failed. -/
def fail (token : LeaseToken) (error : DeliveryError) : JobWrite where
  admits := heldBy token
  job job := { job with status := error.status, error := some error.message }
  rows r := ((r.updateApproval fun a => { a with prError := some error.message }).setTask
    .prFailed).setReason (some error.message)

/-- The jobs `tick` looks for. -/
def claimable (now : Time) (job : DeliveryJob) : Bool :=
  job.attempts < 5 && (job.status = .queued || job.status = .running && leaseOver now job)

/-- The jobs whose attempts are used up. -/
def exhausted (now : Time) (job : DeliveryJob) : Bool :=
  job.status = .running && 5 ≤ job.attempts && leaseOver now job

/-- The claim of the candidate `tick` found. It compares the status, and
the attempts not again. -/
def claimAdmits (now : Time) (candidate job : DeliveryJob) : Bool :=
  job.status = candidate.status && (candidate.status ≠ .running || leaseOver now job)

/-- What the claim writes. -/
def claimJob (now : Time) (token : LeaseToken) (job : DeliveryJob) : DeliveryJob :=
  { job with
    status := .running, leaseToken := some token, leaseExpiresAt := some (now + 600000)
    attempts := job.attempts + 1 }

end DeliveryService

/-! ## The approval service -/

inductive Decision where
  | approved | rejected
  deriving DecidableEq, Repr

def Decision.status : Decision → ApprovalStatus
  | approved => .approved
  | rejected => .rejected

def Decision.task : Decision → TaskStatus
  | approved => .approved
  | rejected => .rejected

namespace ApprovalService

/-- `ApprovalService.decide`, up to the commit. `seen` and `seenTask` are
the approval and the task it read first; a fixture's are not read again. -/
def decide (sha256 : String → String) (now : Time) (runId : RunId) (decision : Decision)
    (reviewer : Option String) (seen : Approval) (seenTask : Task) (r : RunRows)
    (jobs : List DeliveryJob) : Except ServiceError (RunRows × List DeliveryJob) :=
  if seenTask.snapshot.isSome then
    match decision with
    | .approved => DeliveryService.approve sha256 now runId reviewer r jobs
    | .rejected => do
      let r ← DeliveryService.reject now reviewer r
      pure (r, jobs)
  else do
    require (seen.status = .pending)
      (ServiceError.conflict s!"Approval {runId} 已是 {seen.status.name}，不可重复裁决")
    require (decision.task ∈ seenTask.status.transitions)
      (ServiceError.invalidTransition "task" seenTask.status.name decision.task.name)
    let _ ← orThrow r.approval? ServiceError.recordNotFound
    pure ((r.decideAs decision.status (reviewer.getD "anonymous") now).setTask decision.task, jobs)

/-- The transaction of `createPr`, after the pull request of a fixture task
was made or refused. -/
def createPr (made : Except String String) (r : RunRows) : RunRows :=
  match made with
  | .ok url => (r.updateApproval fun a => { a with prUrl := some url, prError := none }).setTask
      .prCreated
  | .error message => (r.updateApproval fun a => { a with prError := some message }).setTask
      .prFailed

end ApprovalService

/-! ## The state -/

/-- The control plane with the job table, and what the processes beside it
are in the middle of. -/
structure Desk where
  plane : State := {}
  jobs : List DeliveryJob := []
  /-- The contents of the job table before, oldest first. -/
  pastJobs : List (List DeliveryJob) := []
  /-- The claims a tick won: the job, and the token of the execution. -/
  executions : List (ℕ × LeaseToken) := []
  /-- The calls of `createPr` that were started, by their run. -/
  creations : List RunId := []

namespace Desk

variable (d : Desk)

/-- The rows of a run now. -/
def row? (id : RunId) : Option RunRows := d.plane.db.runs[id]?

/-- The job of a run's approval. -/
def job? (id : RunId) : Option DeliveryJob := Table.lookup DeliveryJob.approvalId d.jobs id

/-- The job table as it was read. -/
def jobsAt (version : ℕ) : Option (List DeliveryJob) := (d.pastJobs ++ [d.jobs])[version]?

/-- A committed write of the job table. -/
def setJobs (jobs : List DeliveryJob) : Desk := { d with jobs, pastJobs := d.pastJobs ++ [d.jobs] }

/-- A committed write of the rows of one run. -/
def setRow (id : RunId) (r : RunRows) : Desk :=
  { d with plane := d.plane.commit { d.plane.db with runs := d.plane.db.runs.set id r } }

/-- A transaction on a job, its approval and its task. -/
def write (j : ℕ) (w : DeliveryService.JobWrite) : Option Desk := do
  let job ← d.jobs[j]?
  guard (w.admits job)
  let r ← d.row? job.approvalId
  let _ ← r.approval?
  some ((d.setRow job.approvalId (w.rows r)).setJobs (d.jobs.set j (w.job job)))

/-- An update of one job, where it meets a condition. -/
def updateJob (j : ℕ) (admits : DeliveryJob → Bool) (f : DeliveryJob → DeliveryJob) :
    Option Desk := do
  let job ← d.jobs[j]?
  guard (admits job)
  some (d.setJobs (d.jobs.set j (f job)))

end Desk

/-! ## The machine -/

/-- An event, its digests computed by one function. -/
def Event.withSha (sha256 : String → String) : Event → Event
  | .createTask env input => .createTask { env with sha256 } input
  | .confirm env input readAt => .confirm { env with sha256 } input readAt
  | .request env req => .request { env with sha256 } req
  | .environment env id token fingerprint imageId log =>
    .environment { env with sha256 } id token fingerprint imageId log
  | .publish now runId message readAt => .publish now runId message readAt

/-- The id of a retained report: ``evidence-${sha256(id + content)}``. -/
def evidenceId (sha256 : String → String) (id : AttemptId) (content : String) : String :=
  let digest := sha256 (s!"{id.runId}-{id.index}" ++ content)
  s!"evidence-{digest}"

/-- What `InternalController.evidence` stores. -/
def evidenceArtifact (id : AttemptId) (content : String) : Artifact where
  attemptId := id
  kind := .testReport
  name := "retained-evidence.json"
  content
  sizeBytes := content.utf8ByteSize

inductive DeskEvent where
  | plane (event : Event)
  | evidence (id : AttemptId) (content : String)
  /-- `decide`, with the versions it read the approval and the task in. -/
  | decide (now : Time) (runId : RunId) (decision : Decision) (reviewer : Option String)
      (approvalAt taskAt : ℕ)
  /-- `retryPr`, with the version it read the task in, and the one
  `retry` read the job in. -/
  | retryPr (runId : RunId) (taskAt jobAt : ℕ)
  | createPr (call : ℕ) (made : Except String String)
  /-- `tick`, on a job it found exhausted at `readNow`. -/
  | exhaust (readNow now : Time) (job jobAt : ℕ)
  /-- `tick`, on the candidate it found at `readNow`. -/
  | claim (readNow now : Time) (token : LeaseToken) (jobAt : ℕ)
  | renew (now : Time) (execution : ℕ)
  /-- `deliver`, before the push. -/
  | recordCommit (execution : ℕ) (commit : String)
  | delivered (execution : ℕ) (url : String)
  | deliveryFailed (execution : ℕ) (error : DeliveryService.DeliveryError)

namespace Desk

variable (sha256 : String → String) (d : Desk)

/-- `InternalController.evidence`: the row is written once. -/
def evidence? (id : AttemptId) (content : String) : Option Desk := do
  let r ← d.row? id.runId
  let _ ← r.attempts[id.index]?
  let stored := d.plane.db.runs.any fun r => r.artifacts.any fun a =>
    a.name = "retained-evidence.json" &&
      evidenceId sha256 a.attemptId a.content = evidenceId sha256 id content
  guard (stored = false)
  some (d.setRow id.runId (r.createArtifact (evidenceArtifact id content)))

/-- `ApprovalService.decide`. An approved fixture goes on to `createPr`. -/
def decide? (now : Time) (runId : RunId) (decision : Decision) (reviewer : Option String)
    (approvalAt taskAt : ℕ) : Option Desk := do
  guard (approvalAt ≤ taskAt)
  let before ← d.plane.runAt approvalAt runId
  let seen ← before.approval?
  let seenRows ← d.plane.runAt taskAt runId
  let r ← d.row? runId
  let (r', jobs) ← (ApprovalService.decide sha256 now runId decision reviewer seen seenRows.task r
    d.jobs).toOption
  let creations :=
    if seenRows.task.snapshot.isNone ∧ decision = .approved then [runId] else []
  some { (d.setRow runId r').setJobs jobs with creations := d.creations ++ creations }

/-- `ApprovalService.retryPr`: `DeliveryService.retry` for a snapshot task,
`createPr` once more for a fixture task. -/
def retryPr? (runId : RunId) (taskAt jobAt : ℕ) : Option Desk := do
  let seenRows ← d.plane.runAt taskAt runId
  let _ ← seenRows.approval?
  if seenRows.task.snapshot.isSome then
    let jobs ← d.jobsAt jobAt
    let j ← jobs.findIdx? fun job => job.approvalId = runId
    let job ← jobs[j]?
    guard (job.status = .failed ∧ job.attempts < 5)
    d.write j DeliveryService.retry
  else
    guard (seenRows.task.status = .prFailed)
    let r ← d.row? runId
    some { d.setRow runId (r.setTask .approved) with creations := d.creations ++ [runId] }

/-- `ApprovalService.createPr`, once the pull request was made or refused. -/
def createPr? (call : ℕ) (made : Except String String) : Option Desk := do
  let runId ← d.creations[call]?
  let r ← d.row? runId
  let _ ← r.approval?
  some (d.setRow runId (ApprovalService.createPr made r))

/-- `tick`, the loop over the exhausted jobs. -/
def exhaust? (readNow now : Time) (j jobAt : ℕ) : Option Desk := do
  let jobs ← d.jobsAt jobAt
  let job ← jobs[j]?
  guard (DeliveryService.exhausted readNow job)
  d.write j (DeliveryService.exhaust now)

/-- `tick`, the claim of the oldest candidate. -/
def claim? (readNow now : Time) (token : LeaseToken) (jobAt : ℕ) : Option Desk := do
  let jobs ← d.jobsAt jobAt
  let j ← jobs.findIdx? (DeliveryService.claimable readNow)
  let candidate ← jobs[j]?
  let d' ← d.updateJob j (DeliveryService.claimAdmits now candidate)
    (DeliveryService.claimJob now token)
  some { d' with executions := d.executions ++ [(j, token)] }

/-- `tick`, the renewal of the lease. -/
def renew? (now : Time) (execution : ℕ) : Option Desk := do
  let (j, token) ← d.executions[execution]?
  d.updateJob j (DeliveryService.heldBy token) fun job => { job with
    leaseExpiresAt := some (now + 600000) }

/-- `deliver`, the commit it is about to push. -/
def recordCommit? (execution : ℕ) (commit : String) : Option Desk := do
  let (j, _) ← d.executions[execution]?
  d.updateJob j (fun _ => true) fun job => { job with commitSha := some commit }

/-- `tick`, after its delivery. -/
def delivered? (execution : ℕ) (url : String) : Option Desk := do
  let (j, token) ← d.executions[execution]?
  d.write j (DeliveryService.succeed token url)

/-- `tick`, after its delivery has failed. -/
def deliveryFailed? (execution : ℕ) (error : DeliveryService.DeliveryError) : Option Desk := do
  let (j, token) ← d.executions[execution]?
  d.write j (DeliveryService.fail token error)

/-- The desk an event commits, `none` if it commits nothing. -/
def commit? : DeskEvent → Option Desk
  | .plane e => some { d with plane := ControlPlane.step d.plane (e.withSha sha256) }
  | .evidence id content => d.evidence? sha256 id content
  | .decide now runId decision reviewer approvalAt taskAt =>
    d.decide? sha256 now runId decision reviewer approvalAt taskAt
  | .retryPr runId taskAt jobAt => d.retryPr? runId taskAt jobAt
  | .createPr call made => d.createPr? call made
  | .exhaust readNow now j jobAt => d.exhaust? readNow now j jobAt
  | .claim readNow now token jobAt => d.claim? readNow now token jobAt
  | .renew now execution => d.renew? now execution
  | .recordCommit execution commit => d.recordCommit? execution commit
  | .delivered execution url => d.delivered? execution url
  | .deliveryFailed execution error => d.deliveryFailed? execution error

end Desk

/-- The control plane with its reviewers and its deliveries, started on
empty tables. -/
def desk (sha256 : String → String) : Machine Desk DeskEvent where
  init := {}
  step d e := (d.commit? sha256 e).getD d

end ControlPlane

end AgentReliability
