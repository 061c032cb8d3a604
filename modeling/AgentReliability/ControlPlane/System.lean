import AgentReliability.Common.Machine
import AgentReliability.ControlPlane.Creation
import AgentReliability.ControlPlane.Control
/-!
# The control plane as a machine

The state is the committed database, every version of it that was
committed before, and the stream the outbox is published to. An event is
one request, at the moment its transaction commits or the request ends
without one.

The lock of the run row serialises the transactions of one run, so a
transaction is one atomic function of the rows it guards. What a request
reads outside its transaction comes from versions the event names: any
earlier one, so a read may be arbitrarily old. An attempt and its run read
by one query may come from two versions, the attempt's first.
-/

namespace AgentReliability

namespace ControlPlane

/-! ## The database -/

structure Database where
  runs : List RunRows := []
  environments : List EnvironmentVersion := []

namespace Database

variable (db : Database)

def attempt? (id : AttemptId) : Option Attempt :=
  db.runs[id.runId]?.bind fun r => r.attempts[id.index]?

/-- The environment of a transaction on one run. -/
def context (env : Env) (runId : RunId) : Context :=
  { env with
    runId
    keyTaken := fun key => db.runs.any fun r => r.traceEvents.any fun e => e.idempotencyKey = key
    callTaken := fun id => db.runs.any fun r => r.budgetCalls.any fun call => call.id = id
    attemptKnown := fun id => (db.attempt? id).isSome }

/-- Runs a transaction on the rows of one run. An error aborts it. -/
def transact (env : Env) (runId : RunId)
    (tx : Context → RunRows → Except ServiceError RunRows) : Except ServiceError Database := do
  let r ← orThrow db.runs[runId]? ServiceError.recordNotFound
  let r' ← tx (db.context env runId) r
  pure { db with runs := db.runs.set runId r' }

/-- `environmentVersion.upsert` by fingerprint: the id and the image it
resolves to, and the table after it. -/
def upsertEnvironment (fingerprint imageId log : String) :
    ℕ × Option String × List EnvironmentVersion :=
  match db.environments.findIdx? fun v => v.fingerprint = fingerprint with
  | some k => (k, db.environments[k]?.bind (·.imageId), db.environments)
  | none => (db.environments.length, some imageId,
      db.environments ++ [{ fingerprint, status := "READY", imageId := some imageId, log }])

end Database

/-! ## The state -/

structure State where
  /-- The versions committed before the current one, oldest first. -/
  past : List Database := []
  db : Database := {}
  /-- The `run-commands` stream. -/
  stream : List RunCommand := []
  /-- The claims answered with `duplicate: false`, by run and number. -/
  granted : List (RunId × ℕ) := []

namespace State

variable (s : State)

/-- Every version committed so far, oldest first. -/
def versions : List Database := s.past ++ [s.db]

/-- The rows of a run in a version. -/
def runAt (version : ℕ) (id : RunId) : Option RunRows :=
  s.versions[version]?.bind fun v => v.runs[id]?

def commit (db : Database) : State := { s with past := s.past ++ [s.db], db }

end State

/-- Where a query that includes an attempt and its run was read. -/
structure ReadAt where
  attemptAt : ℕ
  runAt : ℕ

/-- The rows such a query returns. -/
def State.read (s : State) (readAt : ReadAt) (id : AttemptId) :
    Option (Attempt × RunRows) :=
  if readAt.attemptAt ≤ readAt.runAt then do
    let before ← s.runAt readAt.attemptAt id.runId
    let a ← before.attempts[id.index]?
    let r ← s.runAt readAt.runAt id.runId
    some (a, r)
  else none

/-- A call of `control.lease` by the controller, before the service's own
transaction: where it was read, and when. -/
structure LeaseCheck where
  readAt : ReadAt
  now : Time

/-- `control.lease`, outside a transaction. -/
def State.leaseCheck (s : State) (env : Env) (check : LeaseCheck)
    (id : AttemptId) (token : Option LeaseToken) : Except ServiceError (Attempt × RunRows) := do
  let (a, r) ← orThrow (s.read check.readAt id) ServiceError.recordNotFound
  lease (s.db.context { env with now := check.now } id.runId) token true a r.run
  pure (a, r)

/-! ## Requests -/

/-- A request, with the versions it read before its transaction. -/
inductive Request where
  | claim (input : ClaimInput) (runAt attemptAt : ℕ)
  | heartbeat (id : AttemptId) (token : Option LeaseToken) (check : LeaseCheck)
  | complete (id : AttemptId) (token : Option LeaseToken) (outcome : Outcome)
      (check : LeaseCheck) (readAt : ReadAt)
  | saveCheckpoint (runId : RunId) (input : Checkpoint) (token : Option LeaseToken)
      (check : LeaseCheck)
  | leaseExpired (id : AttemptId) (readAt : ReadAt)
  | phase (id : AttemptId) (token : Option LeaseToken) (phase : Phase) (detail : Option String)
  | pause (id : AttemptId) (token : Option LeaseToken) (reason : String) (patch : Option String)
  | pauseRun (runId : RunId) (readAt : ℕ)
  | cancel (runId : RunId)
  | resume (runId : RunId)
  | reserve (runId : RunId) (attemptId : AttemptId) (token : Option LeaseToken) (id : CallId)
      (reserved : ℕ)
  | settle (runId : RunId) (id : CallId) (used : Option ℕ)
  | ingest (runId : RunId) (event : ReportedEvent) (readAt : ℕ)
  /-- The publisher's mark after its XADD of the message. -/
  | markPublished (runId : RunId) (message : ℕ)
  | countFailure (runId : RunId) (message : ℕ)
  /-- The publisher found the run dispatched and its newest message long
  published. -/
  | republish (runId : RunId) (message : ℕ) (runAt messageAt : ℕ)

/-- The newest attempt a query finds executing. -/
def executingAttempt (r : RunRows) : Option (ℕ × Attempt) :=
  (r.attempts.zipIdx.filter fun x => x.1.status = .running).getLast?.map fun x => (x.2, x.1)

/-- A transaction on one run, ready to be run. -/
structure Transaction where
  runId : RunId
  body : Context → RunRows → Except ServiceError RunRows

/-- **What a request does before its transaction**: its reads and checks,
and the transaction it goes on to, if any. -/
def Request.prepare (s : State) (env : Env) :
    Request → Except ServiceError (Option Transaction)
  | .claim input runAt attemptAt => do
    let seen ← orThrow (s.runAt runAt input.runId)
      (ServiceError.notFound s!"Run {input.runId} 不存在")
    let existing := (s.runAt attemptAt input.runId).any fun r =>
      r.attempts.any fun a => a.no = input.attemptNo
    if existing then pure none
    else
      require (seen.run.status = .dispatched) (ServiceError.conflict "Run is not dispatchable")
      pure (some ⟨input.runId, fun ctx => claimAttempt ctx seen input⟩)
  | .heartbeat id token check => do
    let _ ← s.leaseCheck env check id token
    pure (some ⟨id.runId, fun ctx => ControlPlane.heartbeat ctx id.index⟩)
  | .complete id token outcome check readAt => do
    let _ ← s.leaseCheck env check id token
    let (a, seen) ← orThrow (s.read readAt id)
      (ServiceError.notFound s!"Attempt {id.index} 不存在")
    if a.status = .running then
      pure (some ⟨id.runId, fun ctx => completeAttempt ctx seen id.index a.no outcome⟩)
    else pure none
  | .saveCheckpoint runId input token check => do
    let (_, seen) ← s.leaseCheck env check input.attemptId token
    require (input.attemptId.runId = runId ∧ seen.run.baseCommit = input.baseCommit)
      (ServiceError.badRequest "Checkpoint mismatch")
    pure (some ⟨runId, fun ctx => ControlPlane.saveCheckpoint ctx input⟩)
  | .leaseExpired id readAt =>
    match s.read readAt id with
    | none => pure none
    | some (a, seen) =>
      if a.status = .running ∨ a.status = .claimed then
        pure (some ⟨id.runId, fun ctx => handleLeaseExpired ctx seen id.index a.no⟩)
      else pure none
  | .phase id token p detail =>
    pure (some ⟨id.runId, fun ctx => ControlPlane.phase ctx id.index token p detail⟩)
  | .pause id token reason patch =>
    pure (some ⟨id.runId, fun ctx => ControlPlane.pause ctx id.index token reason patch⟩)
  | .pauseRun runId readAt => do
    let idle := ServiceError.conflict "No active attempt to pause"
    let (i, a) ← orThrow ((s.runAt readAt runId).bind executingAttempt) idle
    require a.leaseToken.isSome idle
    pure (some ⟨runId, fun ctx =>
      ControlPlane.pause ctx i a.leaseToken "PAUSED_BY_USER" none⟩)
  | .cancel runId => pure (some ⟨runId, fun ctx => ControlPlane.cancel ctx⟩)
  | .resume runId => pure (some ⟨runId, fun ctx => ControlPlane.resume ctx⟩)
  | .reserve runId attemptId token id reserved =>
    pure (some ⟨runId, fun ctx => ControlPlane.reserve ctx attemptId token id reserved⟩)
  | .settle runId id used => pure (some ⟨runId, fun ctx => ControlPlane.settle ctx id used⟩)
  | .ingest runId event readAt =>
    let existing := s.versions[readAt]?.any fun v =>
      v.runs.any fun r => r.traceEvents.any fun e => e.idempotencyKey = event.idempotencyKey
    if existing then pure none
    else pure (some ⟨runId, fun ctx => ControlPlane.ingest ctx event⟩)
  | .markPublished runId message => do
    let r ← orThrow s.db.runs[runId]? ServiceError.recordNotFound
    let m ← orThrow r.outbox[message]? ServiceError.recordNotFound
    if m.payload ∈ s.stream then
      pure (some ⟨runId, fun ctx => ControlPlane.markPublished ctx message⟩)
    else pure none
  | .countFailure runId message =>
    pure (some ⟨runId, fun _ => ControlPlane.countFailure message⟩)
  | .republish runId message runAt messageAt =>
    let waiting := (s.runAt runAt runId).any fun r => r.run.status = .dispatched
    let published := (s.runAt messageAt runId).any fun r =>
      message + 1 = r.outbox.length &&
        r.outbox[message]?.any fun m =>
          m.status = .published && m.publishedAt.any fun t => t < env.now - 60000
    if waiting && published then
      pure (some ⟨runId, fun _ => ControlPlane.republish message⟩)
    else pure none

/-- **The transaction a request goes on to**, with what the request has read
and what it has checked. -/
inductive Request.GoesTo (s : State) (env : Env) : Request → Transaction → Prop
  | claim {input : ClaimInput} {runAt attemptAt : ℕ} {seen : RunRows}
      (hseen : s.runAt runAt input.runId = some seen)
      (hnew : ((s.runAt attemptAt input.runId).any fun r =>
        r.attempts.any fun a => a.no = input.attemptNo) = false)
      (hstatus : seen.run.status = .dispatched) :
      GoesTo s env (.claim input runAt attemptAt)
        ⟨input.runId, fun ctx => claimAttempt ctx seen input⟩
  | heartbeat {id : AttemptId} {token : Option LeaseToken} {check : LeaseCheck}
      {lease : Attempt × RunRows} (hlease : s.leaseCheck env check id token = .ok lease) :
      GoesTo s env (.heartbeat id token check)
        ⟨id.runId, fun ctx => ControlPlane.heartbeat ctx id.index⟩
  | complete {id : AttemptId} {token : Option LeaseToken} {outcome : Outcome}
      {check : LeaseCheck} {readAt : ReadAt} {lease : Attempt × RunRows} {a : Attempt}
      {seen : RunRows} (hlease : s.leaseCheck env check id token = .ok lease)
      (hread : s.read readAt id = some (a, seen)) (hstatus : a.status = .running) :
      GoesTo s env (.complete id token outcome check readAt)
        ⟨id.runId, fun ctx => completeAttempt ctx seen id.index a.no outcome⟩
  | saveCheckpoint {input : Checkpoint} {token : Option LeaseToken} {check : LeaseCheck}
      {lease : Attempt × RunRows} {runId : RunId}
      (hlease : s.leaseCheck env check input.attemptId token = .ok lease)
      (hrunId : input.attemptId.runId = runId)
      (hbase : lease.2.run.baseCommit = input.baseCommit) :
      GoesTo s env (.saveCheckpoint runId input token check)
        ⟨runId, fun ctx => ControlPlane.saveCheckpoint ctx input⟩
  | leaseExpired {id : AttemptId} {readAt : ReadAt} {a : Attempt} {seen : RunRows}
      (hread : s.read readAt id = some (a, seen))
      (hstatus : a.status = .running ∨ a.status = .claimed) :
      GoesTo s env (.leaseExpired id readAt)
        ⟨id.runId, fun ctx => handleLeaseExpired ctx seen id.index a.no⟩
  | phase {id : AttemptId} {token : Option LeaseToken} {p : Phase} {detail : Option String} :
      GoesTo s env (.phase id token p detail)
        ⟨id.runId, fun ctx => ControlPlane.phase ctx id.index token p detail⟩
  | pause {id : AttemptId} {token : Option LeaseToken} {reason : String}
      {patch : Option String} :
      GoesTo s env (.pause id token reason patch)
        ⟨id.runId, fun ctx => ControlPlane.pause ctx id.index token reason patch⟩
  | pauseRun {runId : RunId} {readAt i : ℕ} {a : Attempt}
      (hseen : (s.runAt readAt runId).bind executingAttempt = some (i, a))
      (htoken : a.leaseToken.isSome) :
      GoesTo s env (.pauseRun runId readAt)
        ⟨runId, fun ctx => ControlPlane.pause ctx i a.leaseToken "PAUSED_BY_USER" none⟩
  | cancel {runId : RunId} :
      GoesTo s env (.cancel runId) ⟨runId, fun ctx => ControlPlane.cancel ctx⟩
  | resume {runId : RunId} :
      GoesTo s env (.resume runId) ⟨runId, fun ctx => ControlPlane.resume ctx⟩
  | reserve {runId : RunId} {attemptId : AttemptId} {token : Option LeaseToken} {id : CallId}
      {reserved : ℕ} :
      GoesTo s env (.reserve runId attemptId token id reserved)
        ⟨runId, fun ctx => ControlPlane.reserve ctx attemptId token id reserved⟩
  | settle {runId : RunId} {id : CallId} {used : Option ℕ} :
      GoesTo s env (.settle runId id used) ⟨runId, fun ctx => ControlPlane.settle ctx id used⟩
  | ingest {runId : RunId} {event : ReportedEvent} {readAt : ℕ}
      (hnew : (s.versions[readAt]?.any fun v => v.runs.any fun r =>
        r.traceEvents.any fun e => e.idempotencyKey = event.idempotencyKey) = false) :
      GoesTo s env (.ingest runId event readAt) ⟨runId, fun ctx => ControlPlane.ingest ctx event⟩
  | markPublished {runId : RunId} {message : ℕ} {r : RunRows} {m : OutboxMessage}
      (hr : s.db.runs[runId]? = some r) (hm : r.outbox[message]? = some m)
      (hsent : m.payload ∈ s.stream) :
      GoesTo s env (.markPublished runId message)
        ⟨runId, fun ctx => ControlPlane.markPublished ctx message⟩
  | countFailure {runId : RunId} {message : ℕ} :
      GoesTo s env (.countFailure runId message)
        ⟨runId, fun _ => ControlPlane.countFailure message⟩
  | republish {runId : RunId} {message runAt messageAt : ℕ}
      (hwaiting : ((s.runAt runAt runId).any fun r => r.run.status = .dispatched) = true)
      (hpublished : ((s.runAt messageAt runId).any fun r => message + 1 = r.outbox.length &&
        r.outbox[message]?.any fun m =>
          m.status = .published && m.publishedAt.any fun t => t < env.now - 60000) = true) :
      GoesTo s env (.republish runId message runAt messageAt)
        ⟨runId, fun _ => ControlPlane.republish message⟩

theorem Request.goesTo {s : State} {env : Env} {req : Request} {tx : Transaction}
    (hprep : req.prepare s env = .ok (some tx)) : req.GoesTo s env tx := by
  cases req with
  | claim input runAt attemptAt =>
    simp only [Request.prepare, bind_eq_ok, orThrow_eq_ok] at hprep
    obtain ⟨seen, hseen, hprep⟩ := hprep
    split at hprep
    · simp at hprep
    · next hnew =>
      simp only [bind_eq_ok, require_eq_ok, pure_eq_ok, Option.some.injEq] at hprep
      obtain ⟨-, hstatus, rfl⟩ := hprep
      exact .claim hseen (Bool.eq_false_iff.mpr hnew) hstatus
  | heartbeat id token check =>
    simp only [Request.prepare, bind_eq_ok, pure_eq_ok, Option.some.injEq] at hprep
    obtain ⟨lease, hlease, rfl⟩ := hprep
    exact .heartbeat hlease
  | complete id token outcome check readAt =>
    simp only [Request.prepare, bind_eq_ok, orThrow_eq_ok] at hprep
    obtain ⟨lease, hlease, ⟨a, seen⟩, hread, hprep⟩ := hprep
    split at hprep
    · next hstatus =>
      simp only [pure_eq_ok, Option.some.injEq] at hprep
      subst hprep
      exact .complete hlease hread hstatus
    · simp at hprep
  | saveCheckpoint runId input token check =>
    simp only [Request.prepare, bind_eq_ok, require_eq_ok, pure_eq_ok, Option.some.injEq] at hprep
    obtain ⟨lease, hlease, -, ⟨hrunId, hbase⟩, rfl⟩ := hprep
    exact .saveCheckpoint hlease hrunId hbase
  | leaseExpired id readAt =>
    simp only [Request.prepare] at hprep
    split at hprep
    · simp at hprep
    · next a seen hread =>
      split at hprep
      · next hstatus =>
        simp only [pure_eq_ok, Option.some.injEq] at hprep
        subst hprep
        exact .leaseExpired hread hstatus
      · simp at hprep
  | pauseRun runId readAt =>
    simp only [Request.prepare, bind_eq_ok, orThrow_eq_ok, require_eq_ok, pure_eq_ok,
      Option.some.injEq] at hprep
    obtain ⟨⟨i, a⟩, hseen, _, htoken, rfl⟩ := hprep
    exact .pauseRun hseen htoken
  | ingest runId event readAt =>
    simp only [Request.prepare] at hprep
    split at hprep
    · simp at hprep
    · next hnew =>
      simp only [pure_eq_ok, Option.some.injEq] at hprep
      subst hprep
      exact .ingest (Bool.eq_false_iff.mpr hnew)
  | markPublished runId message =>
    simp only [Request.prepare, bind_eq_ok, orThrow_eq_ok] at hprep
    obtain ⟨r, hr, m, hm, hprep⟩ := hprep
    split at hprep
    · next hsent =>
      simp only [pure_eq_ok, Option.some.injEq] at hprep
      subst hprep
      exact .markPublished hr hm hsent
    · simp at hprep
  | republish runId message runAt messageAt =>
    simp only [Request.prepare] at hprep
    split at hprep
    · next hold =>
      simp only [pure_eq_ok, Option.some.injEq] at hprep
      subst hprep
      obtain ⟨hwaiting, hpublished⟩ := (Bool.and_eq_true _ _).mp hold
      exact .republish hwaiting hpublished
    · simp at hprep
  -- The others read nothing before their transaction.
  | phase | pause | cancel | resume | reserve | settle | countFailure =>
    simp only [Request.prepare, pure_eq_ok, Option.some.injEq] at hprep
    subst hprep
    constructor

/-! ## The machine -/

inductive Event where
  | createTask (env : Env) (input : CreateTaskInput)
  | confirm (env : Env) (input : ConfirmInput) (readAt : ℕ)
  | request (env : Env) (request : Request)
  | environment (env : Env) (id : AttemptId) (token : Option LeaseToken)
      (fingerprint imageId log : String)
  /-- An XADD of a message the publisher read as pending in a version. -/
  | publish (now : Time) (runId : RunId) (message : ℕ) (readAt : ℕ)

/-- What an event's transaction reads from outside the database. -/
def Event.env? : Event → Option Env
  | .createTask env _ => some env
  | .confirm env _ _ => some env
  | .request env _ => some env
  | .environment env _ _ _ _ _ => some env
  | .publish .. => none

/-- Whose writes a transaction's are: those of a worker that claims an
attempt, those of a worker that reserves tokens, those of the rest of the
run lifecycle, those of the services that settle the ledger and keep the
outbox beside it, the publisher's mark of a message it sent, or those of a
runtime that reports an event under a key of its own. -/
inductive Writer where
  | claimant (attemptNo : ℕ)
  | spender (id : CallId)
  | lifecycle
  | bookkeeping
  | publisher
  | runtime (key : EventKey)
  deriving DecidableEq, Repr

def Writer.isLifecycle : Writer → Bool
  | claimant _ => true
  | spender _ => true
  | lifecycle => true
  | _ => false

def Request.writer : Request → Writer
  | .claim input _ _ => .claimant input.attemptNo
  | .reserve _ _ _ id _ => .spender id
  | .settle .. => .bookkeeping
  | .ingest _ event _ => .runtime event.idempotencyKey
  | .markPublished .. => .publisher
  | .countFailure .. => .bookkeeping
  | .republish .. => .bookkeeping
  | _ => .lifecycle

def Event.writer : Event → Writer
  | .request _ req => req.writer
  | _ => .lifecycle

/-- The claims a request that committed was granted. -/
def Request.grants : Request → List (RunId × ℕ)
  | .claim input _ _ => [(input.runId, input.attemptNo)]
  | _ => []

/-- The database after a request, `none` if it commits nothing. -/
def Request.commit? (s : State) (env : Env) (request : Request) : Option Database :=
  match request.prepare s env with
  | .ok (some tx) => (s.db.transact env tx.runId tx.body).toOption
  | _ => none

/-- The database after an environment report. -/
def environment? (s : State) (env : Env) (id : AttemptId) (token : Option LeaseToken)
    (fingerprint imageId log : String) : Option Database :=
  let (environmentId, resolved, environments) :=
    s.db.upsertEnvironment fingerprint imageId log
  ((s.db.transact env id.runId fun ctx =>
    environment ctx id.index token imageId environmentId resolved).toOption).map fun db =>
      { db with environments }

/-- The database after a creation. -/
def created? (s : State) (rows : Option RunRows) : Option Database :=
  rows.map fun r => { s.db with runs := s.db.runs ++ [r] }

/-- The context a new run is created in. -/
def State.creation (s : State) (env : Env) : Context :=
  s.db.context env s.db.runs.length

/-- The rows a confirmation creates, if it creates any. -/
def confirmed? (s : State) (env : Env) (input : ConfirmInput) (readAt : ℕ) :
    Option RunRows :=
  match s.versions[readAt]? with
  | none => none
  | some seen =>
    match confirm (s.creation env) seen.runs s.db.runs input with
    | .ok (.created rows) => some rows
    | _ => none

/-- The database an event commits, `none` if it commits nothing. -/
def Event.commit? (s : State) : Event → Option Database
  | .createTask env input =>
    created? s (ControlPlane.createTask (s.creation env) s.db.runs input).toOption
  | .confirm env input readAt => created? s (confirmed? s env input readAt)
  | .request env req => req.commit? s env
  | .environment env id token fingerprint imageId log =>
    environment? s env id token fingerprint imageId log
  | .publish .. => none

/-- The commands an event appends to the stream. -/
def Event.published (s : State) : Event → List RunCommand
  | .publish now runId message readAt =>
    (((s.runAt readAt runId).bind (·.outbox[message]?)).filter fun m =>
      m.status = .pending && m.notBefore ≤ now).toList.map (·.payload)
  | _ => []

/-- The claims an event that committed was granted. -/
def Event.grants : Event → List (RunId × ℕ)
  | .request _ req => req.grants
  | _ => []

/-- **One event.** It commits a new version, or appends to the stream, or
changes nothing. -/
def step (s : State) (e : Event) : State :=
  match e.commit? s with
  | some db => { s.commit db with granted := s.granted ++ e.grants }
  | none => { s with stream := s.stream ++ e.published s }

/-- The control plane, started on an empty database. -/
def machine : Machine State Event where
  init := {}
  step := step

/-! ## A small instance

The registry without a fixture repository, and a snapshot with a budget of
1000 tokens and 900 seconds in three attempts. The runs the statements are
evaluated on are built from them. -/

/-- The fixture that is always registered. -/
def fakeFixture : Fixture where
  id := "fake"
  title := "空转闭环假任务"
  repoPath := "/tmp/arp-fake-repo"
  baseCommit := "main"
  taskSpec := {
    fixtureId := some "fake"
    description := "假执行器任务：产出 10 个脚本化事件后成功"
    workdir := "."
    allowedPaths := ["**"]
    staticCheck := []
    failToPass := []
    passToPass := []
    acceptanceCriteria := []
    testPatch := none }

/-- The registry that has loaded nothing else. -/
def builtinFixtures : FixtureRegistry where
  find id := if id = "fake" then some fakeFixture else none
  id_of_find := by
    intro id fixture h
    split at h
    · rename_i hid
      rw [← Option.some.inj h, hid]
      rfl
    · exact absurd h (by simp)

/-- An environment at a time. The digests are placeholders: what is
evaluated on it compares none of two different texts. -/
def envAt (now : Time) : Env where
  now
  leaseTtlMs := 30000
  leaseToken := 7
  fixtures := builtinFixtures
  resolve := fun _ _ => none
  repoPath := "/repo"
  sha256 := id
  digestSnapshot := fun s => s.title

def smallSnapshot : TaskSnapshot where
  repositoryId := "repo"
  parentTaskId := none
  executionSha := "base"
  agentKind := .selfLanggraph
  title := "bug"
  description := "fix"
  config := {
    workdir := ".", allowedPaths := ["src/**"], staticCheck := [], failToPass := ["pytest"]
    passToPass := [], acceptanceCriteria := ["fixed"] }
  baseline := { command := "pytest", expected := ["test_bug"] }
  budget := {
    tokens := 1000, seconds := 900, turns := 20, maxAttempts := 3
    tokens_bounds := by decide, seconds_bounds := by decide, turns_bounds := by decide
    maxAttempts_bounds := by decide }
  delivery := { kind := .pullRequest, targetBranch := "main", expectedTargetSha := "base" }
  source := none

/-- A confirmation of the small snapshot under a key. -/
def smallConfirm (key : String) : ConfirmInput where
  draft := { snapshot := smallSnapshot, revision := 1, expiresAt := 1000000 }
  revision := 1
  key
  testsConfirmed := true
  keepPinned := false
  currentHead := "base"
  commitAvailable := true

/-- A claim that reads the newest of the versions committed so far. -/
def claimAt (now : Time) (runId : RunId) (attemptNo version : ℕ) : Event :=
  .request (envAt now) (.claim { runId, attemptNo, workerId := "worker" } version version)

/-- A lease check read in one version. -/
def checkAt (now : Time) (version : ℕ) : LeaseCheck := ⟨⟨version, version⟩, now⟩

end ControlPlane

end AgentReliability
