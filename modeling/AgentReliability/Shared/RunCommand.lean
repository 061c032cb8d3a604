import AgentReliability.Shared.TaskSnapshot
/-!
# The command of a snapshot, in both languages

`commandFromSnapshot` parses a stored snapshot, builds the command of an
attempt and parses that too. What it returns is written as JSON, published,
and read by the Pydantic model of the runtime, which forbids members it
does not know.
-/

namespace AgentReliability

namespace Shared

open ControlPlane (AgentKind RunCommandType)
open JsonSchema

/-! ## The values -/

structure TaskSpec where
  fixtureId : Option String := none
  description : String
  workdir : String
  allowedPaths : List String
  staticCheck : List String
  failToPass : List String
  passToPass : List String
  acceptanceCriteria : List String
  testPatch : Option String := none
  deriving DecidableEq, Repr

structure Budget where
  tokens : ℤ
  seconds : ℤ
  turns : ℤ
  remainingTokens : ℤ
  remainingSeconds : ℤ
  deriving DecidableEq, Repr

structure RepoRef where
  path : String
  baseCommit : String
  deriving DecidableEq, Repr

structure RunCommand where
  schemaVersion : Option ℤ
  snapshot : Option TaskSnapshot
  commandId : String
  type : RunCommandType
  runId : String
  attemptNo : ℤ
  agentKind : AgentKind
  repo : RepoRef
  taskSpec : TaskSpec
  budget : Budget
  checkpointId : Option String
  deriving DecidableEq, Repr

def typeName : RunCommandType → String
  | .startRun => "START_RUN"
  | .resumeRun => "RESUME_RUN"
  | .cancelRun => "CANCEL_RUN"

/-- `RUN_COMMAND_TYPES`. -/
def runCommandTypes : List RunCommandType := [.startRun, .resumeRun, .cancelRun]

/-! ### Their JSON -/

def TaskSpec.members (t : TaskSpec) : List (String × Option Json) := [
  ("fixtureId", t.fixtureId.map .str),
  ("description", some (.str t.description)),
  ("workdir", some (.str t.workdir)),
  ("allowedPaths", some (strings t.allowedPaths)),
  ("staticCheck", some (strings t.staticCheck)),
  ("failToPass", some (strings t.failToPass)),
  ("passToPass", some (strings t.passToPass)),
  ("acceptanceCriteria", some (strings t.acceptanceCriteria)),
  ("testPatch", t.testPatch.map .str)]

def TaskSpec.toJson (t : TaskSpec) : Json := .object t.members

def Budget.members (b : Budget) : List (String × Option Json) := [
  ("tokens", some (number b.tokens)),
  ("seconds", some (number b.seconds)),
  ("turns", some (number b.turns)),
  ("remainingTokens", some (number b.remainingTokens)),
  ("remainingSeconds", some (number b.remainingSeconds))]

def Budget.toJson (b : Budget) : Json := .object b.members

def RepoRef.members (r : RepoRef) : List (String × Option Json) := [
  ("path", some (.str r.path)),
  ("baseCommit", some (.str r.baseCommit))]

def RepoRef.toJson (r : RepoRef) : Json := .object r.members

def RunCommand.members (c : RunCommand) : List (String × Option Json) := [
  ("schemaVersion", c.schemaVersion.map number),
  ("snapshot", c.snapshot.map TaskSnapshot.toJson),
  ("commandId", some (.str c.commandId)),
  ("type", some (.str (typeName c.type))),
  ("runId", some (.str c.runId)),
  ("attemptNo", some (number c.attemptNo)),
  ("agentKind", some (.str (agentKindName c.agentKind))),
  ("repo", some c.repo.toJson),
  ("taskSpec", some c.taskSpec.toJson),
  ("budget", some c.budget.toJson),
  ("checkpointId", c.checkpointId.map .str)]

def RunCommand.toJson (c : RunCommand) : Json := .object c.members

/-! ## `run-command.ts` -/

/-- `z.number().int().nonnegative()`. -/
def nonnegativeInt : JsonSchema ℤ := check (fun n => 0 ≤ n) safeInt

def taskSpecSchema : JsonSchema TaskSpec := fun v => do
  v.isObject
  let fixtureId ← optional string (v.get "fixtureId")
  let description ← string (v.get "description")
  let workdir ← string (v.get "workdir")
  let allowedPaths ← array string (v.get "allowedPaths")
  let staticCheck ← array string (v.get "staticCheck")
  let failToPass ← array string (v.get "failToPass")
  let passToPass ← array string (v.get "passToPass")
  let acceptanceCriteria ← array string (v.get "acceptanceCriteria")
  let testPatch ← optional string (v.get "testPatch")
  pure { fixtureId, description, workdir, allowedPaths, staticCheck, failToPass, passToPass,
         acceptanceCriteria, testPatch }

def budgetSchema : JsonSchema Budget := fun v => do
  v.isObject
  let tokens ← positiveInt (v.get "tokens")
  let seconds ← positiveInt (v.get "seconds")
  let turns ← positiveInt (v.get "turns")
  let remainingTokens ← nonnegativeInt (v.get "remainingTokens")
  let remainingSeconds ← nonnegativeInt (v.get "remainingSeconds")
  pure { tokens, seconds, turns, remainingTokens, remainingSeconds }

/-- `RunCommandSchema.repo`. -/
def repoSchema : JsonSchema RepoRef := fun v => do
  v.isObject
  let path ← string (v.get "path")
  let baseCommit ← string (v.get "baseCommit")
  pure { path, baseCommit }

section Urls

-- `new URL(text)` does not throw
variable (isUrl : String → Bool)

def runCommandSchema : JsonSchema RunCommand := fun v => do
  v.isObject
  let schemaVersion ← optional (literalInt 2) (v.get "schemaVersion")
  let snapshot ← optional (taskSnapshotSchema isUrl) (v.get "snapshot")
  let commandId ← nonempty (v.get "commandId")
  let type ← oneOf typeName runCommandTypes (v.get "type")
  let runId ← nonempty (v.get "runId")
  let attemptNo ← positiveInt (v.get "attemptNo")
  let agentKind ← oneOf agentKindName agentKinds (v.get "agentKind")
  let repo ← repoSchema (v.get "repo")
  let taskSpec ← taskSpecSchema (v.get "taskSpec")
  let budget ← budgetSchema (v.get "budget")
  let checkpointId ← optional string (v.get "checkpointId")
  pure { schemaVersion, snapshot, commandId, type, runId, attemptNo, agentKind, repo, taskSpec,
         budget, checkpointId }

/-! ### `commandFromSnapshot` -/

/-- The object `commandFromSnapshot` builds of a parsed snapshot. A
checkpoint without an id is none. -/
def snapshotCommand (snapshot : TaskSnapshot) (repoPath runId : String)
    (attemptNo usedTokens usedSeconds : ℕ) (checkpointId : Option String) : RunCommand :=
  let checkpointId := checkpointId.filter (· ≠ "")
  let type := if checkpointId.isSome then .resumeRun else .startRun
  { schemaVersion := some 2
    snapshot := some snapshot
    commandId := "cmd:" ++ runId ++ ":" ++ typeName type ++ ":" ++ toString attemptNo
    type, runId
    attemptNo := attemptNo
    agentKind := snapshot.agentKind
    repo := { path := repoPath, baseCommit := snapshot.executionSha }
    taskSpec := {
      description := snapshot.description
      workdir := snapshot.config.workdir
      allowedPaths := snapshot.config.allowedPaths
      staticCheck := snapshot.config.staticCheck
      -- `[...new Set([...])]` keeps the first of each value, in order
      failToPass := (snapshot.baseline.command :: snapshot.config.failToPass).eraseDups
      passToPass := snapshot.config.passToPass
      acceptanceCriteria := snapshot.config.acceptanceCriteria }
    budget := {
      tokens := snapshot.budget.tokens
      seconds := snapshot.budget.seconds
      turns := snapshot.budget.turns
      remainingTokens := max 0 (snapshot.budget.tokens - usedTokens)
      remainingSeconds := max 0 (snapshot.budget.seconds - usedSeconds) }
    checkpointId }

/-- `commandFromSnapshot`. Either parse can throw. -/
def commandFromSnapshot (raw : Json) (repoPath runId : String)
    (attemptNo usedTokens usedSeconds : ℕ) (checkpointId : Option String) : Option RunCommand := do
  let snapshot ← taskSnapshotSchema isUrl raw
  runCommandSchema isUrl
    (snapshotCommand snapshot repoPath runId attemptNo usedTokens usedSeconds checkpointId).toJson

end Urls

/-! ## `run_command.py` -/

namespace Pydantic

/-- `Field(ge=lo)`. -/
def atLeast (lo : ℤ) : JsonSchema ℤ := check (fun n => lo ≤ n) int

def taskSpec : JsonSchema TaskSpec := fun v => do
  v.strict ["fixtureId", "description", "workdir", "allowedPaths", "staticCheck", "failToPass",
    "passToPass", "acceptanceCriteria", "testPatch"]
  let fixtureId ← optionalOrNull string (v.get "fixtureId")
  let description ← string (v.get "description")
  let workdir ← string (v.get "workdir")
  let allowedPaths ← array string (v.get "allowedPaths")
  let staticCheck ← array string (v.get "staticCheck")
  let failToPass ← array string (v.get "failToPass")
  let passToPass ← array string (v.get "passToPass")
  let acceptanceCriteria ← orDefault [] (array string) (v.get "acceptanceCriteria")
  let testPatch ← optionalOrNull string (v.get "testPatch")
  pure { fixtureId, description, workdir, allowedPaths, staticCheck, failToPass, passToPass,
         acceptanceCriteria, testPatch }

def budget : JsonSchema Budget := fun v => do
  v.strict ["tokens", "seconds", "turns", "remainingTokens", "remainingSeconds"]
  let tokens ← atLeast 1 (v.get "tokens")
  let seconds ← atLeast 1 (v.get "seconds")
  let turns ← atLeast 1 (v.get "turns")
  let remainingTokens ← atLeast 0 (v.get "remainingTokens")
  let remainingSeconds ← atLeast 0 (v.get "remainingSeconds")
  pure { tokens, seconds, turns, remainingTokens, remainingSeconds }

def repoRef : JsonSchema RepoRef := fun v => do
  v.strict ["path", "baseCommit"]
  let path ← string (v.get "path")
  let baseCommit ← string (v.get "baseCommit")
  pure { path, baseCommit }

def runCommand : JsonSchema RunCommand := fun v => do
  v.strict ["schemaVersion", "snapshot", "commandId", "type", "runId", "attemptNo", "agentKind",
    "repo", "taskSpec", "budget", "checkpointId"]
  let schemaVersion ← optionalOrNull (literalInt 2) (v.get "schemaVersion")
  let snapshot ← optionalOrNull taskSnapshot (v.get "snapshot")
  let commandId ← nonempty (v.get "commandId")
  let type ← oneOf typeName runCommandTypes (v.get "type")
  let runId ← nonempty (v.get "runId")
  let attemptNo ← atLeast 1 (v.get "attemptNo")
  let agentKind ← oneOf agentKindName agentKinds (v.get "agentKind")
  let repo ← repoRef (v.get "repo")
  let taskSpec ← taskSpec (v.get "taskSpec")
  let budget ← budget (v.get "budget")
  let checkpointId ← optionalOrNull string (v.get "checkpointId")
  pure { schemaVersion, snapshot, commandId, type, runId, attemptNo, agentKind, repo, taskSpec,
         budget, checkpointId }

end Pydantic

/-! ## The runtime reads the command back -/

theorem present_number : Present number := fun _ => ⟨by simp [number], by simp [number]⟩

theorem accepts_atLeast_one : Accepts positiveInt number (Pydantic.atLeast 1) := by
  refine Accepts.check (Accepts.of_check Accepts.int) fun n hn => ?_
  simp only [positive, decide_eq_true_eq] at hn ⊢
  omega

theorem accepts_atLeast_zero : Accepts nonnegativeInt number (Pydantic.atLeast 0) :=
  Accepts.check (Accepts.of_check Accepts.int) fun _ h => h

theorem stable_type : Stable (oneOf typeName runCommandTypes) fun t => .str (typeName t) :=
  .oneOf fun t _ => by cases t <;> decide

theorem TaskSpec.nodup (t : TaskSpec) : (t.members.map Prod.fst).Nodup := by
  simp [TaskSpec.members]

theorem Budget.nodup (b : Budget) : (b.members.map Prod.fst).Nodup := by
  simp [Budget.members]

theorem RepoRef.nodup (r : RepoRef) : (r.members.map Prod.fst).Nodup := by
  simp [RepoRef.members]

theorem RunCommand.nodup (c : RunCommand) : (c.members.map Prod.fst).Nodup := by
  simp [RunCommand.members]

theorem accepts_taskSpec {v : Json} {t : TaskSpec} (h : taskSpecSchema v = some t) :
    Pydantic.taskSpec t.toJson = some t := by
  have hnodup := t.nodup
  obtain ⟨-, -, h⟩ := Option.bind_eq_some_iff.mp h
  obtain ⟨fixtureId, hfixtureId, h⟩ := Option.bind_eq_some_iff.mp h
  obtain ⟨description, hdescription, h⟩ := Option.bind_eq_some_iff.mp h
  obtain ⟨workdir, hworkdir, h⟩ := Option.bind_eq_some_iff.mp h
  obtain ⟨allowedPaths, hallowedPaths, h⟩ := Option.bind_eq_some_iff.mp h
  obtain ⟨staticCheck, hstaticCheck, h⟩ := Option.bind_eq_some_iff.mp h
  obtain ⟨failToPass, hfailToPass, h⟩ := Option.bind_eq_some_iff.mp h
  obtain ⟨passToPass, hpassToPass, h⟩ := Option.bind_eq_some_iff.mp h
  obtain ⟨acceptanceCriteria, hacceptanceCriteria, h⟩ := Option.bind_eq_some_iff.mp h
  obtain ⟨testPatch, htestPatch, h⟩ := Option.bind_eq_some_iff.mp h
  obtain rfl := Option.some.inj h
  refine bind_read (Json.strict_object (by simp [TaskSpec.members])) ?_
  refine bind_read (read_optional hnodup rfl
      (Accepts.string.optionalOrNull (present_str id) hfixtureId)) ?_
  refine bind_read (read_member hnodup rfl (Accepts.string.reads hdescription)) ?_
  refine bind_read (read_member hnodup rfl (Accepts.string.reads hworkdir)) ?_
  refine bind_read
      (read_member hnodup rfl ((accepts_strings Accepts.string).reads hallowedPaths)) ?_
  refine bind_read (read_member hnodup rfl ((accepts_strings Accepts.string).reads hstaticCheck)) ?_
  refine bind_read (read_member hnodup rfl ((accepts_strings Accepts.string).reads hfailToPass)) ?_
  refine bind_read (read_member hnodup rfl ((accepts_strings Accepts.string).reads hpassToPass)) ?_
  refine bind_read (read_member hnodup rfl
    ((accepts_strings Accepts.string).reads hacceptanceCriteria)) ?_
  refine bind_read (read_optional hnodup rfl
      (Accepts.string.optionalOrNull (present_str id) htestPatch)) ?_
  rfl

theorem accepts_budget {v : Json} {b : Budget} (h : budgetSchema v = some b) :
    Pydantic.budget b.toJson = some b := by
  have hnodup := b.nodup
  obtain ⟨-, -, h⟩ := Option.bind_eq_some_iff.mp h
  obtain ⟨tokens, htokens, h⟩ := Option.bind_eq_some_iff.mp h
  obtain ⟨seconds, hseconds, h⟩ := Option.bind_eq_some_iff.mp h
  obtain ⟨turns, hturns, h⟩ := Option.bind_eq_some_iff.mp h
  obtain ⟨remainingTokens, hremainingTokens, h⟩ := Option.bind_eq_some_iff.mp h
  obtain ⟨remainingSeconds, hremainingSeconds, h⟩ := Option.bind_eq_some_iff.mp h
  obtain rfl := Option.some.inj h
  refine bind_read (Json.strict_object (by simp [Budget.members])) ?_
  refine bind_read (read_member hnodup rfl (accepts_atLeast_one.reads htokens)) ?_
  refine bind_read (read_member hnodup rfl (accepts_atLeast_one.reads hseconds)) ?_
  refine bind_read (read_member hnodup rfl (accepts_atLeast_one.reads hturns)) ?_
  refine bind_read (read_member hnodup rfl (accepts_atLeast_zero.reads hremainingTokens)) ?_
  refine bind_read (read_member hnodup rfl (accepts_atLeast_zero.reads hremainingSeconds)) ?_
  rfl

theorem accepts_repo {v : Json} {r : RepoRef} (h : repoSchema v = some r) :
    Pydantic.repoRef r.toJson = some r := by
  have hnodup := r.nodup
  obtain ⟨-, -, h⟩ := Option.bind_eq_some_iff.mp h
  obtain ⟨path, hpath, h⟩ := Option.bind_eq_some_iff.mp h
  obtain ⟨baseCommit, hbaseCommit, h⟩ := Option.bind_eq_some_iff.mp h
  obtain rfl := Option.some.inj h
  refine bind_read (Json.strict_object (by simp [RepoRef.members])) ?_
  refine bind_read (read_member hnodup rfl (Accepts.string.reads hpath)) ?_
  refine bind_read (read_member hnodup rfl (Accepts.string.reads hbaseCommit)) ?_
  rfl

section Urls

variable {isUrl : String → Bool}

theorem accepts_taskSnapshot :
    Accepts (taskSnapshotSchema isUrl) TaskSnapshot.toJson Pydantic.taskSnapshot :=
  ⟨fun h => (taskSnapshot_read h).2⟩

theorem stable_taskSnapshot : Stable (taskSnapshotSchema isUrl) TaskSnapshot.toJson :=
  ⟨fun h => (taskSnapshot_read h).1⟩

/-- **The runtime accepts every command the control plane's schema does.** -/
theorem accepts_runCommand {v : Json} {c : RunCommand} (h : runCommandSchema isUrl v = some c) :
    Pydantic.runCommand c.toJson = some c := by
  have hnodup := c.nodup
  obtain ⟨-, -, h⟩ := Option.bind_eq_some_iff.mp h
  obtain ⟨schemaVersion, hschemaVersion, h⟩ := Option.bind_eq_some_iff.mp h
  obtain ⟨snapshot, hsnapshot, h⟩ := Option.bind_eq_some_iff.mp h
  obtain ⟨commandId, hcommandId, h⟩ := Option.bind_eq_some_iff.mp h
  obtain ⟨type, htype, h⟩ := Option.bind_eq_some_iff.mp h
  obtain ⟨runId, hrunId, h⟩ := Option.bind_eq_some_iff.mp h
  obtain ⟨attemptNo, hattemptNo, h⟩ := Option.bind_eq_some_iff.mp h
  obtain ⟨agentKind, hagentKind, h⟩ := Option.bind_eq_some_iff.mp h
  obtain ⟨repo, hrepo, h⟩ := Option.bind_eq_some_iff.mp h
  obtain ⟨taskSpec, htaskSpec, h⟩ := Option.bind_eq_some_iff.mp h
  obtain ⟨budget, hbudget, h⟩ := Option.bind_eq_some_iff.mp h
  obtain ⟨checkpointId, hcheckpointId, h⟩ := Option.bind_eq_some_iff.mp h
  obtain rfl := Option.some.inj h
  refine bind_read (Json.strict_object (by simp [RunCommand.members])) ?_
  refine bind_read (read_optional hnodup rfl
      (stable_literalInt.optionalOrNull present_number hschemaVersion)) ?_
  refine bind_read (read_optional hnodup rfl
      (accepts_taskSnapshot.optionalOrNull (present_object TaskSnapshot.members) hsnapshot)) ?_
  refine bind_read (read_member hnodup rfl (accepts_nonempty.reads hcommandId)) ?_
  refine bind_read (read_member hnodup rfl (stable_type.reads htype)) ?_
  refine bind_read (read_member hnodup rfl (accepts_nonempty.reads hrunId)) ?_
  refine bind_read (read_member hnodup rfl (accepts_atLeast_one.reads hattemptNo)) ?_
  refine bind_read (read_member hnodup rfl (stable_agentKind.reads hagentKind)) ?_
  refine bind_read (read_member hnodup rfl (accepts_repo hrepo)) ?_
  refine bind_read (read_member hnodup rfl (accepts_taskSpec htaskSpec)) ?_
  refine bind_read (read_member hnodup rfl (accepts_budget hbudget)) ?_
  refine bind_read (read_optional hnodup rfl
      (Accepts.string.optionalOrNull (present_str id) hcheckpointId)) ?_
  rfl

/-! ## The command of a snapshot passes its own schema -/

theorem array_strings (items : List String) : array string (strings items) = some items := by
  induction items with
  | nil => rfl
  | cons s items ih =>
    have htail : readAll string (items.map .str) = some items := ih
    show readAll string (.str s :: items.map .str) = some (s :: items)
    exact bind_read rfl (bind_read htail rfl)

theorem optional_string (o : Option String) :
    optional string ((o.map .str).getD .undefined) = some o := by
  cases o <;> rfl

theorem nonempty_str {s : String} (h : s ≠ "") : nonempty (.str s) = some s := by
  have hpos : s.length ≠ 0 := fun hlen => h (String.length_eq_zero_iff.mp hlen)
  have hle := length_le_utf16Length s
  refine check_eq_some.mpr ⟨rfl, ?_⟩
  simp only [decide_eq_true_eq]
  omega

theorem safeInt_number {n : ℤ} (hlo : 0 ≤ n) (hhi : n < 2 ^ 53) : safeInt (number n) = some n := by
  refine check_eq_some.mpr ⟨rfl, ?_⟩
  simp only [Bool.and_eq_true, decide_eq_true_eq]
  omega

theorem positiveInt_number {n : ℤ} (hlo : 0 < n) (hhi : n < 2 ^ 53) :
    positiveInt (number n) = some n :=
  check_eq_some.mpr ⟨safeInt_number hlo.le hhi, by simpa [positive] using hlo⟩

theorem nonnegativeInt_number {n : ℤ} (hlo : 0 ≤ n) (hhi : n < 2 ^ 53) :
    nonnegativeInt (number n) = some n :=
  check_eq_some.mpr ⟨safeInt_number hlo hhi, by simpa using hlo⟩

theorem typeName_read (t : RunCommandType) :
    oneOf typeName runCommandTypes (.str (typeName t)) = some t := by
  cases t <;> decide

theorem agentKind_read (k : AgentKind) :
    oneOf agentKindName agentKinds (.str (agentKindName k)) = some k := by
  cases k <;> decide

theorem repo_read (r : RepoRef) : repoSchema r.toJson = some r := by
  have hnodup := r.nodup
  refine bind_read (Json.isObject_object _) ?_
  refine bind_read (read_member hnodup rfl rfl) ?_
  refine bind_read (read_member hnodup rfl rfl) ?_
  rfl

theorem taskSpec_read (t : TaskSpec) : taskSpecSchema t.toJson = some t := by
  have hnodup := t.nodup
  refine bind_read (Json.isObject_object _) ?_
  refine bind_read (read_optional hnodup rfl (optional_string _)) ?_
  refine bind_read (read_member hnodup rfl rfl) ?_
  refine bind_read (read_member hnodup rfl rfl) ?_
  refine bind_read (read_member hnodup rfl (array_strings _)) ?_
  refine bind_read (read_member hnodup rfl (array_strings _)) ?_
  refine bind_read (read_member hnodup rfl (array_strings _)) ?_
  refine bind_read (read_member hnodup rfl (array_strings _)) ?_
  refine bind_read (read_member hnodup rfl (array_strings _)) ?_
  refine bind_read (read_optional hnodup rfl (optional_string _)) ?_
  rfl

/-- The bounds of a snapshot's budget. -/
structure TaskBudget.Bounded (b : TaskBudget) : Prop where
  tokens : 0 < b.tokens ∧ b.tokens ≤ 10000000
  seconds : 0 < b.seconds ∧ b.seconds ≤ 86400
  turns : 0 < b.turns ∧ b.turns ≤ 1000

theorem bounds_of_positiveMax {hi n : ℤ} {v : Json} (h : positiveMax hi v = some n) :
    0 < n ∧ n ≤ hi := by
  obtain ⟨hpositive, hmax⟩ := check_eq_some.mp h
  obtain ⟨-, hpos⟩ := check_eq_some.mp hpositive
  exact ⟨by simpa [positive] using hpos, by simpa using hmax⟩

theorem bounded_of_taskBudget {v : Json} {b : TaskBudget} (h : taskBudgetSchema v = some b) :
    b.Bounded := by
  obtain ⟨-, -, h⟩ := Option.bind_eq_some_iff.mp h
  obtain ⟨tokens, htokens, h⟩ := Option.bind_eq_some_iff.mp h
  obtain ⟨seconds, hseconds, h⟩ := Option.bind_eq_some_iff.mp h
  obtain ⟨turns, hturns, h⟩ := Option.bind_eq_some_iff.mp h
  obtain ⟨maxAttempts, -, h⟩ := Option.bind_eq_some_iff.mp h
  obtain rfl := Option.some.inj h
  exact ⟨bounds_of_positiveMax htokens, bounds_of_positiveMax hseconds,
    bounds_of_positiveMax hturns⟩

theorem bounded_of_taskSnapshot {v : Json} {s : TaskSnapshot}
    (h : taskSnapshotSchema isUrl v = some s) : s.budget.Bounded := by
  obtain ⟨-, -, h⟩ := Option.bind_eq_some_iff.mp h
  obtain ⟨schemaVersion, -, h⟩ := Option.bind_eq_some_iff.mp h
  obtain ⟨mode, -, h⟩ := Option.bind_eq_some_iff.mp h
  obtain ⟨repositoryId, -, h⟩ := Option.bind_eq_some_iff.mp h
  obtain ⟨parentTaskId, -, h⟩ := Option.bind_eq_some_iff.mp h
  obtain ⟨configVersion, -, h⟩ := Option.bind_eq_some_iff.mp h
  obtain ⟨executionSha, -, h⟩ := Option.bind_eq_some_iff.mp h
  obtain ⟨agentKind, -, h⟩ := Option.bind_eq_some_iff.mp h
  obtain ⟨title, -, h⟩ := Option.bind_eq_some_iff.mp h
  obtain ⟨description, -, h⟩ := Option.bind_eq_some_iff.mp h
  obtain ⟨config, -, h⟩ := Option.bind_eq_some_iff.mp h
  obtain ⟨baseline, -, h⟩ := Option.bind_eq_some_iff.mp h
  obtain ⟨budget, hbudget, h⟩ := Option.bind_eq_some_iff.mp h
  obtain ⟨delivery, -, h⟩ := Option.bind_eq_some_iff.mp h
  obtain ⟨source, -, h⟩ := Option.bind_eq_some_iff.mp h
  obtain rfl := Option.some.inj h
  exact bounded_of_taskBudget hbudget

/-- What is left of a budget lies between nothing and the budget. -/
theorem nonnegativeInt_remaining {total : ℤ} (used : ℕ) (hlo : 0 < total) (hhi : total < 2 ^ 53) :
    nonnegativeInt (number (max 0 (total - used))) = some (max 0 (total - used)) :=
  nonnegativeInt_number (by omega) (by omega)

/-- **The command of a parsed snapshot passes the command schema**, for a run
with an id and an attempt with a safe number. -/
theorem commandFromSnapshot_eq {raw : Json} {s : TaskSnapshot}
    (hs : taskSnapshotSchema isUrl raw = some s) (repoPath : String) {runId : String}
    (hrun : runId ≠ "") {attemptNo : ℕ} (hno : 1 ≤ attemptNo) (hsafe : attemptNo < 2 ^ 53)
    (usedTokens usedSeconds : ℕ) (checkpointId : Option String) :
    commandFromSnapshot isUrl raw repoPath runId attemptNo usedTokens usedSeconds checkpointId =
      some (snapshotCommand s repoPath runId attemptNo usedTokens usedSeconds checkpointId) := by
  obtain ⟨htokens, hseconds, hturns⟩ := bounded_of_taskSnapshot hs
  refine bind_read hs ?_
  have hnodup := (snapshotCommand s repoPath runId attemptNo usedTokens usedSeconds
    checkpointId).nodup
  have hsnapshot : optional (taskSnapshotSchema isUrl) s.toJson = some (some s) := by
    show (taskSnapshotSchema isUrl s.toJson).map some = some (some s)
    rw [stable_taskSnapshot.reads hs]
    rfl
  have hcommand : (snapshotCommand s repoPath runId attemptNo usedTokens usedSeconds
      checkpointId).commandId ≠ "" := by
    intro h
    have hlength := congrArg String.length h
    simp only [snapshotCommand, String.length_append] at hlength
    have hprefix : "cmd:".length = 4 := by decide
    have hempty : "".length = 0 := by decide
    omega
  have htokens' : s.budget.tokens < 2 ^ 53 := by omega
  have hseconds' : s.budget.seconds < 2 ^ 53 := by omega
  have hturns' : s.budget.turns < 2 ^ 53 := by omega
  have hno' : (0 : ℤ) < attemptNo := by omega
  have hsafe' : (attemptNo : ℤ) < 2 ^ 53 := by omega
  have hbudget : budgetSchema (snapshotCommand s repoPath runId attemptNo usedTokens usedSeconds
      checkpointId).budget.toJson = some (snapshotCommand s repoPath runId attemptNo usedTokens
      usedSeconds checkpointId).budget := by
    have hnodup := (snapshotCommand s repoPath runId attemptNo usedTokens usedSeconds
      checkpointId).budget.nodup
    refine bind_read (Json.isObject_object _) ?_
    refine bind_read (read_member hnodup rfl (positiveInt_number htokens.1 htokens')) ?_
    refine bind_read (read_member hnodup rfl (positiveInt_number hseconds.1 hseconds')) ?_
    refine bind_read (read_member hnodup rfl (positiveInt_number hturns.1 hturns')) ?_
    refine bind_read (read_member hnodup rfl
      (nonnegativeInt_remaining usedTokens htokens.1 htokens')) ?_
    refine bind_read (read_member hnodup rfl
      (nonnegativeInt_remaining usedSeconds hseconds.1 hseconds')) ?_
    rfl
  refine bind_read (Json.isObject_object _) ?_
  refine bind_read (read_optional hnodup rfl rfl) ?_
  refine bind_read (read_member hnodup rfl hsnapshot) ?_
  refine bind_read (read_member hnodup rfl (nonempty_str hcommand)) ?_
  refine bind_read (read_member hnodup rfl (typeName_read _)) ?_
  refine bind_read (read_member hnodup rfl (nonempty_str hrun)) ?_
  refine bind_read (read_member hnodup rfl (positiveInt_number hno' hsafe')) ?_
  refine bind_read (read_member hnodup rfl (agentKind_read _)) ?_
  refine bind_read (read_member hnodup rfl (repo_read _)) ?_
  refine bind_read (read_member hnodup rfl (taskSpec_read _)) ?_
  refine bind_read (read_member hnodup rfl hbudget) ?_
  refine bind_read (read_optional hnodup rfl (optional_string _)) ?_
  rfl

/-- What the command schema returns has an id of its run, and a safe number. -/
theorem bounds_of_runCommandSchema {d c : RunCommand}
    (h : runCommandSchema isUrl d.toJson = some c) :
    d.runId ≠ "" ∧ 0 < d.attemptNo ∧ d.attemptNo < 2 ^ 53 := by
  have hget := fun key => Json.get_object d.nodup key
  obtain ⟨-, -, h⟩ := Option.bind_eq_some_iff.mp h
  obtain ⟨schemaVersion, -, h⟩ := Option.bind_eq_some_iff.mp h
  obtain ⟨snapshot, -, h⟩ := Option.bind_eq_some_iff.mp h
  obtain ⟨commandId, -, h⟩ := Option.bind_eq_some_iff.mp h
  obtain ⟨type, -, h⟩ := Option.bind_eq_some_iff.mp h
  obtain ⟨runId, hrun, h⟩ := Option.bind_eq_some_iff.mp h
  obtain ⟨attemptNo, hno, -⟩ := Option.bind_eq_some_iff.mp h
  have hrunId : d.toJson.get "runId" = .str d.runId := hget "runId"
  have hattemptNo : d.toJson.get "attemptNo" = number d.attemptNo := hget "attemptNo"
  rw [hrunId] at hrun
  rw [hattemptNo] at hno
  obtain ⟨hsame, hpos⟩ := check_eq_some.mp hrun
  obtain rfl : d.runId = runId := Option.some.inj hsame
  obtain ⟨hsafe, hpositive⟩ := check_eq_some.mp hno
  obtain ⟨hint, hbound⟩ := check_eq_some.mp hsafe
  obtain rfl : d.attemptNo = attemptNo := Option.some.inj hint
  simp only [positive, Bool.and_eq_true, decide_eq_true_eq] at hpositive hbound hpos
  refine ⟨?_, hpositive, by omega⟩
  intro hempty
  rw [hempty] at hpos
  exact absurd hpos (by decide)

/-- **What `commandFromSnapshot` returns** is the command of the parsed
snapshot. -/
theorem eq_snapshotCommand {raw : Json} {repoPath runId : String}
    {attemptNo usedTokens usedSeconds : ℕ} {checkpointId : Option String} {c : RunCommand}
    (h : commandFromSnapshot isUrl raw repoPath runId attemptNo usedTokens usedSeconds
      checkpointId = some c) :
    ∃ s, taskSnapshotSchema isUrl raw = some s ∧
      c = snapshotCommand s repoPath runId attemptNo usedTokens usedSeconds checkpointId := by
  obtain ⟨s, hs, hcommand⟩ := Option.bind_eq_some_iff.mp h
  obtain ⟨hrun, hpos, hsafe⟩ := bounds_of_runCommandSchema hcommand
  have hrun : runId ≠ "" := hrun
  have hpos : (0 : ℤ) < attemptNo := hpos
  have hsafe : (attemptNo : ℤ) < 2 ^ 53 := hsafe
  have hno : 1 ≤ attemptNo := by omega
  have hlt : attemptNo < 2 ^ 53 := by omega
  have heq := commandFromSnapshot_eq hs repoPath hrun hno hlt usedTokens usedSeconds checkpointId
  rw [h] at heq
  exact ⟨s, hs, Option.some.inj heq⟩

/-- What was sent is read. -/
theorem read_of_commandFromSnapshot {raw : Json} {repoPath runId : String}
    {attemptNo usedTokens usedSeconds : ℕ} {checkpointId : Option String} {c : RunCommand}
    (h : commandFromSnapshot isUrl raw repoPath runId attemptNo usedTokens usedSeconds
      checkpointId = some c) : Pydantic.runCommand c.toJson = some c := by
  obtain ⟨snapshot, -, hcommand⟩ := Option.bind_eq_some_iff.mp h
  exact accepts_runCommand hcommand

/-- **No command of a snapshot is a message the runtime cannot read.** Of an
accepted snapshot there is a command, and the runtime reads what was
sent. -/
theorem runtime_reads_command {raw : Json} {s : TaskSnapshot}
    (hs : taskSnapshotSchema isUrl raw = some s) (repoPath runId : String) {attemptNo : ℕ}
    (hno : 1 ≤ attemptNo) (usedTokens usedSeconds : ℕ) (checkpointId : Option String) :
    (runId ≠ "" → attemptNo < 2 ^ 53 →
      commandFromSnapshot isUrl raw repoPath runId attemptNo usedTokens usedSeconds checkpointId =
        some (snapshotCommand s repoPath runId attemptNo usedTokens usedSeconds checkpointId)) ∧
    ∀ c, commandFromSnapshot isUrl raw repoPath runId attemptNo usedTokens usedSeconds
      checkpointId = some c → Pydantic.runCommand c.toJson = some c := by
  refine ⟨fun hrun hsafe => ?_, fun c hc => read_of_commandFromSnapshot hc⟩
  exact commandFromSnapshot_eq hs repoPath hrun hno hsafe usedTokens usedSeconds checkpointId

end Urls

/-- A snapshot as a browser sends it: without the defaults, and with a
command that is not trimmed. -/
def sentSnapshot : Json := .obj [
  ("schemaVersion", .num 2), ("mode", .str "REAL"), ("repositoryId", .str "repo-1"),
  ("configVersion", .num 1), ("executionSha", .str "0123456789abcdef0123456789abcdef01234567"),
  ("agentKind", .str "MINI_SWE"), ("title", .str "déjà vu 🎈"), ("description", .str "fails"),
  ("config", .obj [
    ("runtime", .str "python-pytest"), ("preparation", .str "image"), ("image", .str "py:3"),
    ("allowedPaths", .arr [.str "src/**"]), ("staticCheck", .arr []),
    ("failToPass", .arr [.str "pytest -q"]), ("passToPass", .arr [.str "pytest"]),
    ("acceptanceCriteria", .arr [.str "passes"])]),
  ("baseline", .obj [("command", .str " pytest -q "), ("expected", .arr [.str "E1"])]),
  ("budget", .obj [("tokens", .num 1000), ("seconds", .num 60), ("turns", .num 5),
    ("maxAttempts", .num 3)]),
  ("delivery", .obj [("kind", .str "patch"), ("targetBranch", .str "main"),
    ("expectedTargetSha", .str "0123456789abcdef0123456789abcdef01234567")]),
  ("source", .obj [("prUrl", .str "https://host/pull/7"),
    ("headSha", .str "0123456789abcdef0123456789abcdef01234567"),
    ("baseSha", .str "0123456789abcdef0123456789abcdef01234567"), ("ciSha", .null),
    ("evidence", .str "")])]

/-- `new URL` on the texts that start so. -/
def isHttpsUrl (text : String) : Bool := "https://".toList <+: text.toList

theorem isSome_sentSnapshot : (taskSnapshotSchema isHttpsUrl sentSnapshot).isSome := by decide

/-- The snapshot that is stored. -/
def storedSnapshot : TaskSnapshot :=
  (taskSnapshotSchema isHttpsUrl sentSnapshot).get isSome_sentSnapshot

theorem storedSnapshot_eq : taskSnapshotSchema isHttpsUrl sentSnapshot = some storedSnapshot :=
  (Option.some_get isSome_sentSnapshot).symm

theorem runtime_reads_sentSnapshot :
    ∃ c, commandFromSnapshot isHttpsUrl sentSnapshot "/repos/1" "run-1" 2 400 70
      (some "checkpoint-1") = some c ∧ Pydantic.runCommand c.toJson = some c := by
  have h := runtime_reads_command storedSnapshot_eq "/repos/1" "run-1" (by decide : 1 ≤ 2) 400 70
    (some "checkpoint-1")
  have hc := h.1 (by decide) (by decide)
  exact ⟨_, hc, h.2 _ hc⟩

end Shared

end AgentReliability
