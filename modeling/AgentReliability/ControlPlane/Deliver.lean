import AgentReliability.Common.Interference
import AgentReliability.Common.StringNumber
import AgentReliability.ControlPlane.Delivery
import Mathlib.Data.List.Infix
/-!
# A delivery, on the code host

`DeliveryService.deliver`, as a program of its effects on the database, the
code host and a clone. An execution may be cut wherever it waits, and an
effect it waits for may have been carried out; the next one starts over.
What git prints is taken without the white space around it.
-/

namespace AgentReliability

namespace ControlPlane

namespace Deliver

open DeliveryService (DeliveryError)

/-! ## The code host and the clone -/

structure PullRequest where
  /-- The owner and the branch it comes from. -/
  head : String
  base : String
  title : String
  body : Option String
  url : String
  isOpen : Bool := true
  deriving DecidableEq, Repr

/-- **What determines a commit.** -/
structure GitCommit (T : Type) where
  tree : T
  parent : String
  author : String
  authorDate : String
  committer : String
  committerDate : String
  message : String

/-- What git computes. -/
structure GitObjects (T : Type) where
  /-- The tree of a commit of the source repository. -/
  tree : String → Option T
  /-- `git apply --index`. -/
  apply : T → String → Option T
  sha : GitCommit T → String

/-- The clone in the temporary directory. -/
structure WorkRepo (T : Type) where
  head : String := ""
  index : Option T := none
  patch : String := ""

/-- What an execution reads of the job and the project, and others write. -/
structure JobRow where
  status : JobStatus
  commitSha : Option String
  leaseToken : Option LeaseToken
  leaseExpiresAt : Option Time
  writeCredential : Option String
  deriving DecidableEq, Repr

/-- What stays as it is of a job, its task, its run and its project. -/
structure DeliveryInput where
  id : String
  patchDigest : String
  branch : String
  /-- As the schema parses it. -/
  snapshot : Option TaskSnapshot
  githubRepo : Option String
  repoPath : String
  /-- `run.createdAt.toISOString()`. -/
  createdAt : String

/-- A push, and what the last check of the target had seen. -/
structure Push where
  commit : String
  seen : Option String
  deriving DecidableEq, Repr

structure World (T : Type) where
  row : JobRow
  /-- The newest patch of the run. -/
  artifact : Option String
  /-- The target branch. -/
  target : String
  /-- The repair branch. -/
  branch : Option String := none
  pulls : List PullRequest := []
  work : WorkRepo T := {}
  /-- What the execution has last seen of the target branch. -/
  seen : Option String := none
  pushes : List Push := []
  /-- What executions have returned. -/
  returned : List String := []

/-! ## The effects -/

inductive Effect where
  | findJob
  /-- `findUniqueOrThrow` of `assertLease`, with the time it is compared at. -/
  | findLease
  | listPulls (head : String)
  | getTarget (branch : String)
  | inspect (prUrl : String)
  | findArtifact
  | mkdtemp
  | readSecret (credential : String)
  | writeAskpass
  | clone (repoPath : String)
  | checkout (sha : String)
  | writePatch (content : String)
  | apply
  | commit (message : String)
  | revParse
  | updateCommit (commit : String)
  | lsRemote
  | push (commit : String)
  | createPull (title head base body : String)
  | rm

@[reducible] def Effect.Answer : Effect → Type
  | findJob => JobRow
  | findLease => JobRow × Time
  | listPulls _ => List PullRequest
  | getTarget _ | revParse | lsRemote | createPull _ _ _ _ => String
  | findArtifact => Option String
  | _ => Unit

abbrev Execution := Program Effect Effect.Answer DeliveryError

section Source

variable (sha256 : String → String) (job : DeliveryInput)

def marker : String := s!"arp-delivery:{job.id}:{job.patchDigest}"

/-- `pr.body?.includes(marker)`. -/
def isMarked (pr : PullRequest) : Bool :=
  pr.body.any fun body => (marker job).toList <:+: body.toList

/-- `repo.githubRepo.split('/')[0]`. -/
def owner (githubRepo : String) : String := .ofList (githubRepo.toList.takeWhile (· ≠ '/'))

def headLabel (githubRepo branch : String) : String := s!"{owner githubRepo}:{branch}"

def assertDeliveryTarget (expected current : String) : Except DeliveryError Unit :=
  require (expected = current) (.conflict "Target branch changed; create and verify a new task")

/-- `assertDeliveryTarget(expected, await target())`. -/
def assertTarget (snapshot : TaskSnapshot) : Execution Unit := do
  let current ← Program.call (Effect.getTarget snapshot.delivery.targetBranch)
  Program.ofExcept (assertDeliveryTarget snapshot.delivery.expectedTargetSha current)

/-- The execution still has its lease. -/
def LeaseHeld (leaseToken : LeaseToken) (current : JobRow) (now : Time) : Prop :=
  current.leaseToken = some leaseToken ∧ current.status = .running ∧
    current.leaseExpiresAt.any fun expires => now < expires

instance (leaseToken : LeaseToken) (current : JobRow) (now : Time) :
    Decidable (LeaseHeld leaseToken current now) :=
  inferInstanceAs (Decidable (_ ∧ _ ∧ _))

def assertLease (leaseToken : LeaseToken) : Execution Unit := do
  let current ← Program.call Effect.findLease
  Program.ofExcept (require (LeaseHeld leaseToken current.1 current.2)
    (.conflict "Delivery lease expired"))

/-- The newest patch, if it is the one that was approved. -/
def approvedPatch (artifact : Option String) : Except DeliveryError String :=
  orThrow (artifact.filter fun content => sha256 content = job.patchDigest)
    (.conflict "Patch changed after approval")

def commitMessage (snapshot : TaskSnapshot) : String :=
  s!"fix: {snapshot.title}\n\n{marker job}"

def pullBody (snapshot : TaskSnapshot) : String :=
  s!"Verified and approved local repair.\n\n{marker job}\n\n" ++
    s!"Source commit: {snapshot.executionSha}"

/-- `existingRef.split(/\s/)[0]`. -/
def refSha (existingRef : String) : String :=
  .ofList (existingRef.toList.takeWhile fun c => ¬ StringNumber.isWhite c)

/-- In the temporary directory: the commit, the push and the pull request. -/
def publish (row : JobRow) (snapshot : TaskSnapshot) (credential patch : String)
    (leaseToken : LeaseToken) : Execution String := do
  Program.call (Effect.readSecret credential)
  Program.call Effect.writeAskpass
  Program.call (Effect.clone job.repoPath)
  Program.call (Effect.checkout snapshot.executionSha)
  Program.call (Effect.writePatch patch)
  Program.call Effect.apply
  Program.call (Effect.commit (commitMessage job snapshot))
  let commit ← Program.call Effect.revParse
  Program.ofExcept (require (∀ sha ∈ row.commitSha, sha = "" ∨ sha = commit)
    (.conflict "Delivery commit changed"))
  Program.call (Effect.updateCommit commit)
  let existingRef ← Program.call Effect.lsRemote
  Program.ofExcept (require (existingRef = "" ∨ refSha existingRef = commit)
    (.conflict "Repair branch changed externally"))
  assertTarget snapshot
  assertLease leaseToken
  Program.onlyIf (existingRef = "") (Program.call (Effect.push commit))
  assertTarget snapshot
  assertLease leaseToken
  Program.call (Effect.createPull s!"fix: {snapshot.title}" job.branch
    snapshot.delivery.targetBranch (pullBody job snapshot))

/-- `if (snapshot.source) await this.github.inspect(…)`. -/
def inspectSource : Option SnapshotSource → Execution Unit
  | some source => Program.call (Effect.inspect source.prUrl)
  | none => Program.ret ()

/-- What follows where no pull request has been found. -/
def deliverNew (row : JobRow) (snapshot : TaskSnapshot) (credential : String)
    (leaseToken : LeaseToken) (existing : List PullRequest) : Execution String := do
  Program.ofExcept (require (existing = [])
    (.conflict "Delivery branch already belongs to another PR"))
  assertTarget snapshot
  inspectSource snapshot.source
  let artifact ← Program.call Effect.findArtifact
  let patch ← Program.ofExcept (approvedPatch sha256 job artifact)
  Program.call Effect.mkdtemp
  Program.tryFinally (publish job row snapshot credential patch leaseToken)
    (Program.call Effect.rm)

/-- `DeliveryService.deliver`. -/
def deliver (leaseToken : LeaseToken) : Execution String := do
  let row ← Program.call Effect.findJob
  let snapshot ← Program.ofExcept (orThrow job.snapshot .other)
  let credential ← Program.ofExcept (orThrow (row.writeCredential.filter (· ≠ "")) .other)
  let githubRepo ← Program.ofExcept (orThrow (job.githubRepo.filter (· ≠ "")) .other)
  let existing ← Program.call (Effect.listPulls (headLabel githubRepo job.branch))
  match existing.find? (isMarked job) with
  | some found => pure found.url
  | none => deliverNew sha256 job row snapshot credential leaseToken existing

end Source

/-! ## The host -/

/-- What an effect leaves open: the clock, and the URL of a new pull request. -/
structure Choice where
  now : Time
  url : String

/-- What others do. None of them writes the repair branch. -/
inductive Interference where
  | moveTarget (sha : String)
  | writeRow (row : JobRow)
  | writeArtifact (content : Option String)
  | setOpen (index : ℕ) (isOpen : Bool)
  /-- A pull request without the marker. -/
  | openPull (pr : PullRequest)

section Host

variable {T : Type} [DecidableEq T] (objects : GitObjects T) (sha256 : String → String)
  (job : DeliveryInput)

def interfere : Interference → World T → World T
  | .moveTarget sha, w => { w with target := sha }
  | .writeRow row, w => { w with row }
  | .writeArtifact content, w => { w with artifact := content }
  | .setOpen index isOpen, w =>
    { w with pulls := w.pulls.modify index fun pr => { pr with isOpen } }
  | .openPull pr, w => if isMarked job pr then w else { w with pulls := w.pulls ++ [pr] }

/-- The commit the environment of `git` and a message make of a tree. -/
def gitCommit (tree : T) (parent message : String) : GitCommit T where
  tree
  parent
  author := "arp-bot <arp@localhost>"
  authorDate := job.createdAt
  committer := "arp-bot <arp@localhost>"
  committerDate := job.createdAt
  message

def exec (choice : Choice) : (e : Effect) → World T → Option (e.Answer × World T)
  | .findJob, w => some (w.row, w)
  | .findLease, w => some ((w.row, choice.now), w)
  | .listPulls head, w => some (w.pulls.filter (·.head = head), w)
  | .getTarget _, w => some (w.target, { w with seen := some w.target })
  | .inspect _, w | .readSecret _, w | .writeAskpass, w | .clone _, w => some ((), w)
  | .findArtifact, w => some (w.artifact, w)
  | .mkdtemp, w | .rm, w => some ((), { w with work := {} })
  | .checkout sha, w => (objects.tree sha).map fun tree =>
    ((), { w with work := { w.work with head := sha, index := some tree } })
  | .writePatch content, w => some ((), { w with work := { w.work with patch := content } })
  | .apply, w => (w.work.index.bind fun tree => objects.apply tree w.work.patch).map fun tree =>
    ((), { w with work := { w.work with index := some tree } })
  | .commit message, w =>
    -- There is no commit without a change.
    (w.work.index.filter fun tree => objects.tree w.work.head ≠ some tree).map fun tree =>
      ((), { w with work := { w.work with
        head := objects.sha (gitCommit job tree w.work.head message) } })
  | .revParse, w => some (w.work.head, w)
  | .updateCommit commit, w => some ((), { w with row := { w.row with commitSha := some commit } })
  | .lsRemote, w => some ((w.branch.map fun sha => s!"{sha}\trefs/heads/{job.branch}").getD "", w)
  | .push commit, w =>
    -- `--force-with-lease` with no expected value: the branch must not exist.
    if w.branch = none then
      some ((), { w with
        branch := some commit, pushes := w.pushes ++ [{ commit, seen := w.seen }] })
    else none
  | .createPull title head base body, w => some (choice.url, { w with pulls := w.pulls ++ [{
      head := headLabel (job.githubRepo.getD "") head, base, title, body := some body,
      url := choice.url }] })

/-- **The host of the executions of a job.** -/
def host : Host Effect Effect.Answer DeliveryError String (World T) Choice Interference
    LeaseToken where
  exec := exec objects job
  interfere := interfere job
  program := deliver sha256 job
  enter w := { w with seen := none }
  leave url w := { w with returned := w.returned ++ [url] }

end Host

end Deliver

end ControlPlane

end AgentReliability
