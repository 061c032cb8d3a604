import AgentReliability.ControlPlane.RunRows
/-!
# Creating a task and its run

`RunLifecycleService.createTask` for fixture tasks and
`TaskDraftService.confirm` for snapshot tasks. Each commits a task, its
run and the first command together, or nothing.
-/

namespace AgentReliability

namespace ControlPlane

structure CreateTaskInput where
  fixtureId : String
  agentKind : AgentKind
  recoveryDisabled : Option Bool := none
  feedbackMode : Option String := none
  budgetTokens : Option ℕ := none
  budgetSeconds : Option ℕ := none
  budgetTurns : Option ℕ := none
  sourceRef : Option String := none

/-! ## The public demo -/

/-- `assertDemoInput`. -/
def assertDemoInput (input : CreateTaskInput) : Except ServiceError Unit :=
  require (input.fixtureId ∈ ["py-logic-001", "ts-logic-001"] ∧ input.agentKind = .selfLanggraph ∧
      input.budgetTokens.getD 0 ≤ 10000 ∧ input.budgetSeconds.getD 0 ≤ 180 ∧
      input.budgetTurns.getD 0 ≤ 10)
    (ServiceError.badRequest
      "公开模拟演示仅支持 SELF_LANGGRAPH 的 py-logic-001 / ts-logic-001，预算上限 10000 tokens / 180 秒 / 10 轮")

/-- `assertDemoCapacity`. -/
def assertDemoCapacity (active today : ℕ) : Except ServiceError Unit := do
  require (active = 0) (ServiceError.conflict "演示任务执行中，请等待完成后再创建")
  require (today < 100) (ServiceError.conflict "今日演示任务额度已用完（100 次）")

/-- The run statuses the demo counts as active. -/
def demoActive : List RunStatus := [.pending, .dispatched, .running, .verifying, .recovering]

/-- `setUTCHours(0, 0, 0, 0)`. -/
def midnight (now : Time) : Time := now - now % 86400000

/-- The demo's admission check over the runs that exist. -/
def admitDemo (env : Env) (runs : List RunRows) : Except ServiceError Unit :=
  if env.publicDemo then
    assertDemoCapacity (runs.countP fun r => r.run.status ∈ demoActive)
      (runs.countP fun r => midnight env.now ≤ r.task.createdAt)
  else pure ()

/-! ## Fixture tasks -/

/-- The input after the demo's overrides. -/
def demoInput (env : Env) (input : CreateTaskInput) : Except ServiceError CreateTaskInput := do
  if env.publicDemo then
    assertDemoInput input
    pure { input with
      budgetTokens := some 10000, budgetSeconds := some 180, budgetTurns := some 10 }
  else pure input

/-- A budget given as a positive number, or the column's default. -/
def budgetOr (given : Option ℕ) (default : ℕ) : ℕ := (given.filter (0 < ·)).getD default

/-- The commit a fixture run works on. -/
def resolveFixture (env : Env) (fixture : Fixture) : Except ServiceError String :=
  if fixture.id = "fake" then pure fixture.baseCommit
  else orThrow (env.resolve fixture.repoPath fixture.baseCommit)
    (ServiceError.external "git rev-parse failed")

/-- The task and run rows `createTask` inserts. -/
def fixtureRows (env : Env) (input : CreateTaskInput) (fixture : Fixture) (baseCommit : String) :
    RunRows where
  task := {
    title := fixture.title
    description := fixture.taskSpec.description
    sourceRef := input.sourceRef
    fixtureId := some fixture.id
    status := .created
    allowedPaths := fixture.taskSpec.allowedPaths
    snapshot := none
    snapshotDigest := none
    confirmationKey := none
    parentTaskId := none
    attentionReason := none
    createdAt := env.now }
  run := {
    agentKind := input.agentKind
    baseCommit
    recoveryDisabled := input.recoveryDisabled.getD false
    feedbackMode := input.feedbackMode.getD "structured"
    budgetTokens := budgetOr input.budgetTokens 200000
    budgetSeconds := budgetOr input.budgetSeconds 900
    budgetTurns := budgetOr input.budgetTurns 30 }

/-- `RunLifecycleService.createTask`: the rows it commits for the run that
gets the id `ctx.runId`, when `runs` are the runs that exist. -/
def createTask (ctx : Context) (runs : List RunRows) (input : CreateTaskInput) :
    Except ServiceError RunRows := do
  let input ← demoInput ctx.toEnv input
  let fixture ← orThrow (ctx.fixtures.find input.fixtureId)
    (ServiceError.notFound s!"未知 fixture: {input.fixtureId}")
  let baseCommit ← resolveFixture ctx.toEnv fixture
  admitDemo ctx.toEnv runs
  let r := fixtureRows ctx.toEnv input fixture baseCommit
  let r ← transitionTask ctx .created .queued r
  let command ← buildRunCommand ctx r.run .startRun 1 fixture.id none r.run.budgetTokens
    r.run.budgetSeconds
  let command := { command with repo := { command.repo with baseCommit } }
  transitionRun ctx .pending .dispatched (r.send command ctx.now)

/-! ## Snapshot tasks -/

/-- A `TaskDraft` row. -/
structure TaskDraft where
  snapshot : TaskSnapshot
  revision : ℕ
  expiresAt : Time

/-- A confirmation, with what the code host answered to it: the head the
pull request has now, and whether the pinned commit could be fetched. -/
structure ConfirmInput where
  draft : TaskDraft
  revision : ℕ
  key : String
  testsConfirmed : Bool
  keepPinned : Bool
  currentHead : String
  commitAvailable : Bool

/-- The task and run rows `confirm` inserts, with the first command. -/
def snapshotRows (ctx : Context) (snapshot : TaskSnapshot) (key : String) : RunRows where
  task := {
    title := snapshot.title
    description := snapshot.description
    sourceRef := snapshot.source.map (·.prUrl)
    fixtureId := none
    status := .queued
    allowedPaths := snapshot.config.allowedPaths
    snapshot := some snapshot
    snapshotDigest := some (ctx.digestSnapshot snapshot)
    confirmationKey := some key
    parentTaskId := snapshot.parentTaskId
    attentionReason := none
    createdAt := ctx.now }
  run := {
    agentKind := snapshot.agentKind
    status := .dispatched
    baseCommit := snapshot.executionSha
    maxAttempts := snapshot.budget.maxAttempts
    budgetTokens := snapshot.budget.tokens
    budgetSeconds := snapshot.budget.seconds
    budgetTurns := snapshot.budget.turns
    deadlineAt := some (ctx.now + 7 * 86400000) }
  outbox := [{
    payload := commandFromSnapshot snapshot ctx.repoPath ctx.runId 1 0 0 none
    notBefore := ctx.now }]

/-- The run of the task that carries a confirmation key. -/
def confirmedAs (runs : List RunRows) (key : String) : Option RunId :=
  runs.findIdx? fun r => r.task.confirmationKey = some key

/-- What an already confirmed key answers: the run it made, if the input
was the same. -/
def confirmAgain (env : Env) (runs : List RunRows) (input : ConfirmInput) (prior : RunId)
    (message : String) : Except ServiceError RunId := do
  require (runs[prior]?.bind (·.task.snapshotDigest) = some (env.digestSnapshot input.draft.snapshot))
    (ServiceError.conflict message)
  pure prior

/-- What a confirmation comes to: the run an earlier one made, or the rows
of a new one. -/
inductive Confirmed where
  | again (run : RunId)
  | created (rows : RunRows)

/-- `TaskDraftService.confirm`. `seen` are the runs at the moment the key
was first looked up, `runs` those under the key's advisory lock. -/
def confirm (ctx : Context) (seen runs : List RunRows) (input : ConfirmInput) :
    Except ServiceError Confirmed := do
  require (input.testsConfirmed ∧ input.key ≠ "" ∧ input.key.length ≤ 200)
    (ServiceError.badRequest "Confirm tests and supply an idempotency key")
  match confirmedAs seen input.key with
  | some prior =>
    .again <$> confirmAgain ctx.toEnv seen input prior "Idempotency key reused with different input"
  | none =>
    require (input.draft.revision = input.revision ∧ ctx.now ≤ input.draft.expiresAt)
      (ServiceError.conflict "Draft expired or changed")
    require (input.draft.snapshot.source.isSome →
        input.currentHead = input.draft.snapshot.executionSha ∨ input.keepPinned)
      (ServiceError.conflict "PR changed; refresh draft or explicitly keep the pinned SHA")
    require (input.commitAvailable) (ServiceError.external "git fetch failed")
    match confirmedAs runs input.key with
    | some prior => .again <$> confirmAgain ctx.toEnv runs input prior "Idempotency conflict"
    | none => pure (.created (snapshotRows ctx input.draft.snapshot input.key))

end ControlPlane

end AgentReliability
