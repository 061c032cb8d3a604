import AgentReliability.Runtime.Verdict
import AgentReliability.Shared.RunCommand
/-!
# The tests that failed are run again

The baseline command of a snapshot is run before the agent, with a report of
its tests. `commandFromSnapshot` puts the command among those of V4, the
executor keeps the cases of the report under it, and `_run_commands`
compares them with those of the run after the agent. A report that is
missing, or cannot be read, is one without cases.

A workspace is a state of any kind that the commands act on, so what a
command does can depend on everything before it.
-/

namespace AgentReliability

namespace Runtime

open PythonText

open ControlPlane (FailureCode VerifierStep)

/-! ## The report of a run of pytest -/

/-- An element of an XML document. -/
inductive XmlElement where
  | node (tag : String) (attrib : List (String × String)) (children : List XmlElement)

namespace XmlElement

def tag : XmlElement → String
  | node tag _ _ => tag

def attrib : XmlElement → List (String × String)
  | node _ attrib _ => attrib

def children : XmlElement → List XmlElement
  | node _ _ children => children

mutual

/-- `element.iter()`: the element and all below it, in document order. -/
def iter : XmlElement → List XmlElement
  | node tag attrib children => node tag attrib children :: iterAll children

def iterAll : List XmlElement → List XmlElement
  | [] => []
  | element :: rest => element.iter ++ iterAll rest

end

/-- `element.find(tag) is not None`. -/
def has (element : XmlElement) (tag : String) : Bool := element.children.any (·.tag = tag)

end XmlElement

/-- What `parse_cases` raises. -/
inductive CasesError where
  /-- `ET.ParseError`. -/
  | parseError
  /-- `ValueError`: an identity occurs twice. -/
  | duplicate
  /-- `KeyError`: a test has no name. -/
  | missingName
  deriving DecidableEq, Repr

/-- The outcome of a `testcase`. -/
def caseOutcome (case : XmlElement) : String :=
  if case.has "skipped" then "skipped"
  else if case.has "failure" || case.has "error" then "failed"
  else "passed"

def addCase (cases : TestCases) (case : XmlElement) : Except CasesError TestCases :=
  match case.attrib.lookup "name" with
  | none => .error .missingName
  | some name =>
    let identity := (case.attrib.lookup "classname").getD "" ++ "::" ++ name
    if identity ∈ cases.map Prod.fst then .error .duplicate
    else .ok (cases ++ [(identity, caseOutcome case)])

section Checks

-- `ET.fromstring`
variable (fromstring : String → Option XmlElement)

def parseCases (xml : String) : Except CasesError TestCases :=
  match fromstring xml with
  | none => .error .parseError
  | some root => (root.iter.filter (·.tag = "testcase")).foldlM addCase []

/-! ## A check -/

/-- `sandbox.ExecResult`. -/
structure ExecOutput where
  exitCode : ℤ
  stdout : String
  stderr : String := ""
  deriving DecidableEq, Repr

def ExecOutput.combined (r : ExecOutput) : String :=
  if r.stderr = "" then r.stdout
  else if r.stdout ≠ "" then r.stdout ++ "\n[stderr]\n" ++ r.stderr
  else "[stderr]\n" ++ r.stderr

def ExecOutput.result (r : ExecOutput) : ExecResult := ⟨r.exitCode, r.combined⟩

/-- The sandbox and the work tree it is mounted on, in a state. -/
structure SandboxHost (σ : Type) where
  /-- `Sandbox.exec`, of a command and its working directory. There is no
  result if the sandbox crashes. -/
  exec : String → String → σ → Option (ExecOutput × σ)
  uuid4 : σ → String
  checkout : σ → Checkout
  /-- `git apply` on the work tree. -/
  apply : String → σ → Option σ

/-- A check that was made. -/
structure CheckRun where
  command : String
  result : ExecResult
  /-- The text of the report, if there was one. -/
  report : Option String
  cases : Option TestCases
  deriving DecidableEq, Repr

/-- `re.search(r'(^|\s)pytest(\s|$)', command)`, from a place in the command
on: `start` says that a word can start there. -/
def searchPytest (start : Bool) : List Char → Bool
  | [] => false
  | c :: cs =>
    (start && "pytest".toList <+: c :: cs && ((c :: cs).drop 6).head?.all isWhitespace) ||
      searchPytest (isWhitespace c) cs

def isPytest (command : String) : Bool := searchPytest true command.toList

variable {σ : Type} (ws : SandboxHost σ)

/-- `run_check`. A report without a name raises. -/
def runCheck (command cwd : String) (s : σ) : Option (CheckRun × σ) := do
  if ¬ isPytest command then
    let (result, s) ← ws.exec command cwd s
    pure (⟨command, result.result, none, none⟩, s)
  else
    let report := "/tmp/arp-check-" ++ ws.uuid4 s ++ ".xml"
    let (result, s) ← ws.exec ("export PYTEST_ADDOPTS=\"$\x7bPYTEST_ADDOPTS:-\x7d --junitxml=" ++
      report ++ "\"; " ++ command) cwd s
    let (xml, s) ← ws.exec ("cat " ++ report) cwd s
    if xml.exitCode ≠ 0 then
      pure (⟨command, result.result, none, some []⟩, s)
    else
      match parseCases fromstring xml.stdout with
      | .ok cases => pure (⟨command, result.result, some xml.stdout, some cases⟩, s)
      | .error .missingName => none
      | .error _ => pure (⟨command, result.result, some xml.stdout, some []⟩, s)

/-- The checks of a workspace that is nothing but its files. -/
def SandboxHost.checks (ws : SandboxHost Tree) : Checks where
  exec command cwd files := (ws.exec command cwd files).map fun r => (r.1.result, r.2)
  runCheck command cwd files :=
    (runCheck fromstring ws command cwd files).map fun r => (r.1.result, r.1.cases, r.2)

/-! ## The pipeline -/

namespace VerifierPipeline

variable (git : GitCommands) (p : VerifierPipeline)

/-- One command of a step. -/
def checkIn (command : String) (s : σ) : Option (CheckRun × σ) :=
  if p.verifyContract then runCheck fromstring ws command p.cwd s
  else (ws.exec command p.cwd s).map fun (result, s) => (⟨command, result.result, none, none⟩, s)

/-- `_run_commands`, with the checks it makes. -/
def runCommandsIn (step : VerifierStep) (code : FailureCode) (commands : List String) :
    List String → List CommandOutput → List CheckRun → σ →
      Option (StepResult × List CheckRun × σ)
  | [], outputs, runs, s => some (.pass step (.commands commands outputs), runs, s)
  | command :: rest, outputs, runs, s => do
    let (run, s) ← p.checkIn fromstring ws command s
    match p.commandFailure step code command run.result run.cases with
    | some failure => return (failure, runs ++ [run], s)
    | none =>
      runCommandsIn step code commands rest
        (outputs ++ [⟨command, run.result.exitCode, outputTail run.result.combined⟩])
        (runs ++ [run]) s

/-- Where what a command does depends on the files alone, this is the step of
the pipeline on the files. -/
theorem runCommandsIn_files (ws : SandboxHost Tree) (step : VerifierStep) (code : FailureCode)
    (commands rest : List String) (outputs : List CommandOutput) (runs : List CheckRun)
    (files : Tree) :
    (p.runCommandsIn fromstring ws step code commands rest outputs runs files).map
        (fun r => (r.1, r.2.2)) =
      p.runCommands (ws.checks fromstring) step code commands rest outputs files := by
  induction rest generalizing outputs runs files with
  | nil => rfl
  | cons command rest ih =>
    -- a command, with the contract or without it
    have hcheck : p.check (ws.checks fromstring) command files =
        (p.checkIn fromstring ws command files).map fun r => (r.1.result, r.1.cases, r.2) := by
      unfold check checkIn
      split
      · rfl
      · show ((ws.exec command p.cwd files).map _).map _ = _
        rw [Option.map_map, Option.map_map]
        rfl
    simp only [runCommandsIn, runCommands, hcheck]
    cases p.checkIn fromstring ws command files with
    | none => rfl
    | some checked =>
      obtain ⟨run, files'⟩ := checked
      simp only [Option.bind_eq_bind, Option.bind_some, Option.map_some]
      cases p.commandFailure step code command run.result run.cases with
      | some failure => rfl
      | none => exact ih _ _ files'

/-- The work tree with the test patch. -/
def withTestPatch (s : σ) : Option σ :=
  match p.spec.testPatch with
  | some patch => if isBlank patch then some s else ws.apply patch s
  | none => some s

/-- V3, V4 and V5, with the checks of V4. -/
def runChecksIn (results : List StepResult) (patch : String) (s : σ) :
    Option (VerifyReport × List CheckRun) := do
  match p.withTestPatch ws s with
  | none => return (⟨false, results ++ [.fail .v4 .verifyTargetTestsFailed
      (.error "应用基准 test_patch 失败")], patch⟩, [])
  | some s =>
    let (v3, _, s) ← p.runCommandsIn fromstring ws .v3 .verifyStaticFailed p.spec.staticCheck
      p.spec.staticCheck [] [] s
    if ¬ v3.passed then
      return (⟨false, results ++ [v3], patch⟩, [])
    let (v4, runs, s) ← p.runCommandsIn fromstring ws .v4 .verifyTargetTestsFailed p.spec.failToPass
      p.spec.failToPass [] [] s
    if ¬ v4.passed then
      return (⟨false, results ++ [v3, v4], patch⟩, runs)
    let (v5, _, _) ← p.runCommandsIn fromstring ws .v5 .verifyRegressionFailed p.spec.passToPass
      p.spec.passToPass [] [] s
    return (⟨v5.passed, results ++ [v3, v4, v5], patch⟩, runs)

/-- `VerifierPipeline.run`, with the checks of V4. -/
def runIn (s : σ) : Option (VerifyReport × List CheckRun) :=
  match p.gates git (ws.checkout s) with
  | .error report => some (report, [])
  | .ok (results, patch) => p.runChecksIn fromstring ws results patch s

/-- **On files alone the two pipelines are one.** Where a workspace is nothing
but its files, the checks apart that were made, its run is that of the
pipeline on the files. -/
theorem runIn_files {ws : SandboxHost Tree} {files : Tree}
    (hfiles : (ws.checkout files).files = files)
    (happly : ∀ patch files, ws.apply patch files = git.apply files patch) :
    (p.runIn fromstring ws git files).map Prod.fst =
      p.run git (ws.checks fromstring) (ws.checkout files) := by
  have hpatch : p.withTestPatch ws files = p.checkedFiles git files := by
    unfold withTestPatch checkedFiles
    cases p.spec.testPatch with
    | none => rfl
    | some patch => simp only [happly]
  have hstep := fun step code commands files =>
    (runCommandsIn_files fromstring p ws step code commands commands [] [] files).symm
  unfold runIn run
  cases p.gates git (ws.checkout files) with
  | error report => rfl
  | ok passed =>
    obtain ⟨results, patch⟩ := passed
    simp only [hfiles, runChecksIn, runChecks, hpatch]
    cases p.checkedFiles git files with
    | none => rfl
    | some files =>
      simp only [Option.bind_eq_bind, hstep]
      cases p.runCommandsIn fromstring ws .v3 .verifyStaticFailed p.spec.staticCheck
          p.spec.staticCheck [] [] files with
      | none => rfl
      | some made =>
        obtain ⟨v3, runs₃, files₃⟩ := made
        simp only [Option.bind_some, Option.map_some]
        split
        · rfl
        · cases p.runCommandsIn fromstring ws .v4 .verifyTargetTestsFailed p.spec.failToPass
              p.spec.failToPass [] [] files₃ with
          | none => rfl
          | some made =>
            obtain ⟨v4, runs₄, files₄⟩ := made
            simp only [Option.bind_some, Option.map_some]
            split
            · rfl
            · cases p.runCommandsIn fromstring ws .v5 .verifyRegressionFailed p.spec.passToPass
                  p.spec.passToPass [] [] files₄ <;> rfl

end VerifierPipeline

/-! ## The attempt -/

inductive BaselineClass where
  | notReproduced | environmentError | reproduced | evidenceMismatch
  deriving DecidableEq, Repr

/-- `classify_baseline`. -/
def classifyBaseline (exitCode : ℤ) (output : String) (expected : List String) : BaselineClass :=
  if exitCode = 0 then .notReproduced
  else if exitCode ∈ [5, 124, 126, 127, 137] ∨
      ["ModuleNotFoundError", "command not found", "No module named", "no tests ran",
        "collected 0 items", "Permission denied"].any (contains · output) then .environmentError
  else if expected ≠ [] ∧ expected.all (contains · output) then .reproduced
  else .evidenceMismatch

inductive AttemptEnd where
  | succeeded
  | failed (code : Option FailureCode)
  | paused
  deriving DecidableEq, Repr

/-- What an attempt of a snapshot ends with. -/
structure Outcome where
  status : AttemptEnd
  /-- The baseline check, once it was made. -/
  baseline : Option CheckRun := none
  /-- The checks of V4. -/
  targets : List CheckRun := []
  deriving DecidableEq, Repr

/-- What the executor does beside the checks. Where there is nothing it has
raised, and the attempt is paused. -/
structure AttemptHost (σ : Type) where
  /-- The commit of a SHA. -/
  commit : String → Commit
  /-- The environment is prepared and the sandbox of the agent started. -/
  start : Option σ
  /-- The agent works. -/
  agent : σ → Option σ
  /-- A sandbox at the base commit, with the candidate of the agent's work
  tree. -/
  verification : σ → Option σ

def specOf (spec : Shared.TaskSpec) : TaskSpec where
  workdir := spec.workdir
  allowedPaths := spec.allowedPaths
  staticCheck := spec.staticCheck
  failToPass := spec.failToPass
  passToPass := spec.passToPass
  testPatch := spec.testPatch

/-- The command as the verification reads it. -/
def attemptOf (base : Commit) (snapshot : Shared.TaskSnapshot) (command : Shared.RunCommand) :
    AttemptCommand where
  taskSpec := specOf command.taskSpec
  base := base
  snapshot := some {
    baselineCommand := snapshot.baseline.command
    protectedPaths := snapshot.config.protectedPaths
    dependencyFiles := snapshot.config.dependencyFiles }

/-- `RealExecutor.execute`, of a command with a snapshot. -/
def execute (git : GitCommands) (host : AttemptHost σ) (snapshot : Shared.TaskSnapshot)
    (command : Shared.RunCommand) : Outcome :=
  match host.start with
  | none => { status := .paused }
  | some s =>
    match runCheck fromstring ws snapshot.baseline.command
        ("/workspace/" ++ command.taskSpec.workdir) s with
    | none => { status := .paused }
    | some (baseline, s) =>
      if classifyBaseline baseline.result.exitCode baseline.result.combined
          snapshot.baseline.expected ≠ .reproduced then
        { status := .paused, baseline := some baseline }
      else
        let attempt := attemptOf (host.commit command.repo.baseCommit) snapshot command
        match (host.agent s).bind fun s => (host.verification s).bind
            ((attempt.pipeline baseline.cases).runIn fromstring ws git) with
        | none => { status := .paused, baseline := some baseline }
        | some (report, targets) =>
          { status := if report.passed then .succeeded else .failed report.failureCode
            baseline := some baseline
            targets }

/-! ## What a passed check has shown -/

/-- The run left a report that can be read, with these cases. -/
def CheckRun.Reported (run : CheckRun) (cases : TestCases) : Prop :=
  ∃ xml, run.report = some xml ∧ parseCases fromstring xml = .ok cases

variable {fromstring ws} {git : GitCommands} {p : VerifierPipeline} {s s' : σ}

/-- **A check of pytest has cases, and has no others than those of its
report.** Without one, or of one that cannot be read, it has none. -/
theorem runCheck_pytest {command cwd : String} {run : CheckRun} (hpytest : isPytest command)
    (h : runCheck fromstring ws command cwd s = some (run, s')) :
    run.command = command ∧ ∃ cases, run.cases = some cases ∧
      (cases ≠ [] → run.Reported fromstring cases) := by
  simp only [runCheck, hpytest, not_true_eq_false, if_false, Option.bind_eq_bind,
    Option.bind_eq_some_iff] at h
  obtain ⟨⟨result, s₁⟩, -, ⟨xml, s₂⟩, -, h⟩ := h
  split at h
  · obtain ⟨rfl, -⟩ := Prod.mk.inj (Option.some.inj h)
    exact ⟨rfl, [], rfl, fun hne => absurd rfl hne⟩
  · split at h
    · rename_i cases hcases
      obtain ⟨rfl, -⟩ := Prod.mk.inj (Option.some.inj h)
      exact ⟨rfl, cases, rfl, fun _ => ⟨xml.stdout, rfl, hcases⟩⟩
    · cases h
    · obtain ⟨rfl, -⟩ := Prod.mk.inj (Option.some.inj h)
      exact ⟨rfl, [], rfl, fun hne => absurd rfl hne⟩

theorem passed_of_commandFailure {step : VerifierStep} {code : FailureCode} {command : String}
    {result : ExecResult} {cases : Option TestCases} {failure : StepResult}
    (h : p.commandFailure step code command result cases = some failure) :
    failure.passed = false := by
  unfold VerifierPipeline.commandFailure at h
  extract_lets stdoutTail uncovered at h
  split at h
  · cases h; rfl
  · split at h
    · cases h; rfl
    · split at h
      · cases h; rfl
      · cases h

/-- A command that does not fail its step has covered the tests of its
baseline. -/
theorem coverage_of_commandFailure {step : VerifierStep} {code : FailureCode} {command : String}
    {result : ExecResult} {cases : Option TestCases} {before : TestCases}
    (hcontract : p.verifyContract = true) (hbefore : p.baselineCases.lookup command = some before)
    (h : p.commandFailure step code command result cases = none) :
    result.exitCode = 0 ∧ coveragePreserved before (cases.getD []) = true := by
  unfold VerifierPipeline.commandFailure at h
  simp only [hbefore, hcontract, true_and] at h
  split at h
  · cases h
  · rename_i hcovered
    split at h
    · cases h
    · split at h
      · cases h
      · rename_i hexit
        have hzero : result.exitCode = 0 := not_not.mp hexit
        refine ⟨hzero, ?_⟩
        simpa [hzero] using hcovered

/-- **A step that passed has run all its commands**, each once, and none of
them has failed it. -/
theorem runCommandsIn_passed {step : VerifierStep} {code : FailureCode} {commands rest : List String}
    {outputs : List CommandOutput} {runs runs' : List CheckRun} {r : StepResult}
    (h : p.runCommandsIn fromstring ws step code commands rest outputs runs s = some (r, runs', s'))
    (hpassed : r.passed) :
    ∃ made, runs' = runs ++ made ∧ List.Forall₂ (fun command run =>
      (∃ s₁ s₂, p.checkIn fromstring ws command s₁ = some (run, s₂)) ∧
        p.commandFailure step code command run.result run.cases = none) rest made := by
  induction rest generalizing outputs runs s with
  | nil =>
    obtain ⟨-, rfl, -⟩ := by simpa [VerifierPipeline.runCommandsIn] using h
    exact ⟨[], (List.append_nil _).symm, .nil⟩
  | cons command rest ih =>
    simp only [VerifierPipeline.runCommandsIn, Option.bind_eq_bind, Option.bind_eq_some_iff] at h
    obtain ⟨⟨run, s₁⟩, hcheck, h⟩ := h
    split at h
    · -- the step has failed here
      rename_i failure hfailure
      obtain ⟨rfl, -⟩ := Prod.mk.inj (Option.some.inj h)
      rw [passed_of_commandFailure hfailure] at hpassed
      cases hpassed
    · rename_i hnone
      obtain ⟨made, hmade, hall⟩ := ih h
      exact ⟨run :: made, by rw [hmade]; simp, .cons ⟨⟨s, s₁, hcheck⟩, hnone⟩ hall⟩

/-- The check a command of the step was made with. -/
theorem exists_of_forall₂ {α β : Type*} {R : α → β → Prop} {xs : List α} {ys : List β}
    (h : List.Forall₂ R xs ys) {x : α} (hx : x ∈ xs) : ∃ y ∈ ys, R x y := by
  induction h with
  | nil => cases hx
  | cons hxy _ ih =>
    rcases List.mem_cons.mp hx with rfl | hx
    · exact ⟨_, List.mem_cons_self, hxy⟩
    · obtain ⟨y, hy, hR⟩ := ih hx
      exact ⟨y, List.mem_cons_of_mem _ hy, hR⟩

/-- A gate that fails ends the run without a pass. -/
theorem passed_of_gates_error {w : Checkout} {report : VerifyReport}
    (h : p.gates git w = .error report) : report.passed = false := by
  unfold VerifierPipeline.gates at h
  split at h
  · cases h; rfl
  · extract_lets v1 changed violations v2 tampered at h
    split at h
    · cases h; rfl
    · split at h
      · cases h; rfl
      · split at h
        · cases h; rfl
        · cases h

/-- **A run of the pipeline that passed has passed every step.** -/
theorem runIn_passed {report : VerifyReport} {targets : List CheckRun}
    (h : p.runIn fromstring ws git s = some (report, targets)) (hpassed : report.passed) :
    (∃ ok, p.gates git (ws.checkout s) = .ok ok) ∧
      ∃ v3 v4 v5 runs3 runs5 s₁ s₂ s₃ s₄, p.withTestPatch ws s = some s₁ ∧
        p.runCommandsIn fromstring ws .v3 .verifyStaticFailed p.spec.staticCheck
          p.spec.staticCheck [] [] s₁ = some (v3, runs3, s₂) ∧ v3.passed ∧
        p.runCommandsIn fromstring ws .v4 .verifyTargetTestsFailed p.spec.failToPass
          p.spec.failToPass [] [] s₂ = some (v4, targets, s₃) ∧ v4.passed ∧
        p.runCommandsIn fromstring ws .v5 .verifyRegressionFailed p.spec.passToPass
          p.spec.passToPass [] [] s₃ = some (v5, runs5, s₄) ∧ v5.passed := by
  unfold VerifierPipeline.runIn at h
  split at h
  · rename_i failed hgates
    obtain ⟨rfl, -⟩ := Prod.mk.inj (Option.some.inj h)
    rw [passed_of_gates_error hgates] at hpassed
    cases hpassed
  · rename_i results patch hgates
    refine ⟨⟨_, hgates⟩, ?_⟩
    unfold VerifierPipeline.runChecksIn at h
    split at h
    · obtain ⟨rfl, -⟩ := Prod.mk.inj (Option.some.inj h)
      cases hpassed
    · rename_i s₁ hpatch
      simp only [Option.bind_eq_bind, Option.bind_eq_some_iff] at h
      obtain ⟨⟨v3, runs3, s₂⟩, h3, h⟩ := h
      split at h
      · obtain ⟨rfl, -⟩ := Prod.mk.inj (Option.some.inj h)
        cases hpassed
      · rename_i hv3
        simp only [Option.bind_eq_some_iff] at h
        obtain ⟨⟨v4, runs4, s₃⟩, h4, h⟩ := h
        split at h
        · obtain ⟨rfl, -⟩ := Prod.mk.inj (Option.some.inj h)
          cases hpassed
        · rename_i hv4
          simp only [Option.bind_eq_some_iff] at h
          obtain ⟨⟨v5, runs5, s₄⟩, h5, h⟩ := h
          obtain ⟨rfl, rfl⟩ := Prod.mk.inj (Option.some.inj h)
          exact ⟨v3, v4, v5, runs3, runs5, s₁, s₂, s₃, s₄, hpatch, h3, not_not.mp hv3, h4,
            not_not.mp hv4, h5, hpassed⟩

/-! ## The tests of the baseline -/

theorem coveragePreserved_eq_true {before after : TestCases}
    (h : coveragePreserved before after = true) :
    (∃ case ∈ before, case.2 ≠ "skipped") ∧
      ∀ case ∈ before, case.2 ≠ "skipped" → after.lookup case.1 = some "passed" := by
  simp only [coveragePreserved, decide_eq_true_eq, Bool.decide_and, Bool.and_eq_true] at h
  obtain ⟨hnonempty, hall⟩ := h
  constructor
  · obtain ⟨name, hname⟩ := List.exists_mem_of_ne_nil _ hnonempty
    obtain ⟨case, hcase, -⟩ := List.mem_map.mp hname
    obtain ⟨hmem, hrun⟩ := List.mem_filter.mp hcase
    exact ⟨case, hmem, by simpa using hrun⟩
  · intro case hmem hrun
    have hname : case.1 ∈ (before.filter (·.2 ≠ "skipped")).map (·.1) :=
      List.mem_map_of_mem (List.mem_filter.mpr ⟨hmem, by simpa using hrun⟩)
    simpa using List.all_eq_true.mp hall _ hname

/-- What the end of an attempt that succeeded was made of. -/
theorem execute_succeeded {host : AttemptHost σ} {snapshot : Shared.TaskSnapshot}
    {command : Shared.RunCommand}
    (h : (execute fromstring ws git host snapshot command).status = .succeeded) :
    ∃ baseline s₀ s₁ s₂ report,
      (execute fromstring ws git host snapshot command).baseline = some baseline ∧
      runCheck fromstring ws snapshot.baseline.command
        ("/workspace/" ++ command.taskSpec.workdir) s₀ = some (baseline, s₁) ∧
      ((attemptOf (host.commit command.repo.baseCommit) snapshot command).pipeline
        baseline.cases).runIn fromstring ws git s₂ =
          some (report, (execute fromstring ws git host snapshot command).targets) ∧
      report.passed := by
  unfold execute at h ⊢
  cases hstart : host.start with
  | none => simp only [hstart] at h; cases h
  | some s₀ =>
    cases hbaseline : runCheck fromstring ws snapshot.baseline.command
        ("/workspace/" ++ command.taskSpec.workdir) s₀ with
    | none => simp only [hstart, hbaseline] at h; cases h
    | some checked =>
      obtain ⟨baseline, s₁⟩ := checked
      simp only [hstart, hbaseline] at h ⊢
      split at h
      · cases h
      · rename_i hreproduced
        simp only [if_neg hreproduced]
        split at h
        · cases h
        · rename_i report targets hverify
          simp only
          obtain ⟨s', -, hverified⟩ := Option.bind_eq_some_iff.mp hverify
          obtain ⟨s₂, -, hrun⟩ := Option.bind_eq_some_iff.mp hverified
          refine ⟨baseline, s₀, s₁, s₂, report, rfl, hbaseline, hrun, ?_⟩
          by_contra hfailed
          simp [hfailed] at h

/-- The executor keeps the cases of the baseline under its command. -/
theorem lookup_baselineCases {base : Commit} {snapshot : Shared.TaskSnapshot}
    {command : Shared.RunCommand} (cases : TestCases) :
    ((attemptOf base snapshot command).pipeline (some cases)).baselineCases.lookup
      snapshot.baseline.command = some cases :=
  List.lookup_cons_self

/-- What an attempt has shown of the tests of its baseline. -/
def Covered (fromstring : String → Option XmlElement) (command : String)
    (outcome : Outcome) : Prop :=
  ∃ baseline before run after,
    outcome.baseline = some baseline ∧ baseline.Reported fromstring before ∧
    (∃ case ∈ before, case.2 ≠ "skipped") ∧
    run ∈ outcome.targets ∧ run.command = command ∧ run.result.exitCode = 0 ∧
    run.Reported fromstring after ∧
    ∀ case ∈ before, case.2 ≠ "skipped" → after.lookup case.1 = some "passed"

/-- Where the command of the baseline is among those of V4, its tests are
covered. -/
theorem covered_of_succeeded {host : AttemptHost σ} {snapshot : Shared.TaskSnapshot}
    {command : Shared.RunCommand} (hpytest : isPytest snapshot.baseline.command)
    (htarget : snapshot.baseline.command ∈ command.taskSpec.failToPass)
    (hend : (execute fromstring ws git host snapshot command).status = .succeeded) :
    Covered fromstring snapshot.baseline.command
      (execute fromstring ws git host snapshot command) := by
  obtain ⟨baseline, s₀, s₁, s₂, report, hbaseline, hfirst, hrun, hpassed⟩ := execute_succeeded hend
  obtain ⟨-, before, hbefore, hreported⟩ := runCheck_pytest hpytest hfirst
  rw [hbefore] at hrun
  obtain ⟨-, v3, v4, v5, runs3, runs5, t₁, t₂, t₃, t₄, -, -, -, hv4, hv4passed, -⟩ :=
    runIn_passed hrun hpassed
  obtain ⟨made, hmade, hall⟩ := runCommandsIn_passed hv4 hv4passed
  obtain ⟨run, hmem, ⟨u₁, u₂, hcheck⟩, hnone⟩ := exists_of_forall₂ hall htarget
  rw [List.nil_append] at hmade
  rw [← hmade] at hmem
  -- its cases are compared with those of the baseline
  obtain ⟨hexit, hcovered⟩ := coverage_of_commandFailure rfl (lookup_baselineCases before) hnone
  obtain ⟨hname, after, hafter, hagain⟩ := runCheck_pytest hpytest hcheck
  obtain ⟨⟨case, hcase, hcaseRun⟩, hpass⟩ := coveragePreserved_eq_true hcovered
  rw [hafter] at hpass
  refine ⟨baseline, before, run, after, hbaseline, hreported ?_, ⟨case, hcase, hcaseRun⟩, hmem,
    hname, hexit, hagain ?_, hpass⟩
  · rintro rfl
    cases hcase
  · rintro rfl
    cases hpass case hcase hcaseRun

/-- **The tests that failed before the agent pass after it.** Where an
attempt succeeds, the command of the baseline was run on the verified work
tree and has exited with 0, both its runs have left a report, and the tests
of the first that were not skipped have passed in the second. -/
theorem baseline_tests_pass {isUrl : String → Bool} {raw : Json} {repoPath runId : String}
    {attemptNo usedTokens usedSeconds : ℕ} {checkpointId : Option String}
    {sent command : Shared.RunCommand} {snapshot : Shared.TaskSnapshot} {host : AttemptHost σ}
    (hsent : Shared.commandFromSnapshot isUrl raw repoPath runId attemptNo usedTokens usedSeconds
      checkpointId = some sent)
    (hread : Shared.Pydantic.runCommand sent.toJson = some command)
    (hsnapshot : command.snapshot = some snapshot) (hpytest : isPytest snapshot.baseline.command)
    (hend : (execute fromstring ws git host snapshot command).status = .succeeded) :
    Covered fromstring snapshot.baseline.command
      (execute fromstring ws git host snapshot command) := by
  obtain ⟨s', -, hbuilt⟩ := Shared.eq_snapshotCommand hsent
  have hsame : sent = command :=
    Option.some.inj ((Shared.read_of_commandFromSnapshot hsent).symm.trans hread)
  subst hsame hbuilt
  obtain rfl : s' = snapshot := Option.some.inj hsnapshot
  exact covered_of_succeeded hpytest (List.mem_eraseDups.mpr List.mem_cons_self) hend

end Checks

/-! ### An attempt that succeeds -/

def failedXml : String :=
  "<testsuite><testcase classname=\"suite\" name=\"test_bug\"><failure/></testcase></testsuite>"

def passedXml : String :=
  "<testsuite><testcase classname=\"suite\" name=\"test_bug\"/></testsuite>"

/-- The parser, on these two reports. -/
def twoReports (xml : String) : Option XmlElement :=
  if xml = failedXml then some (.node "testsuite" [] [.node "testcase"
    [("classname", "suite"), ("name", "test_bug")] [.node "failure" [] []]])
  else if xml = passedXml then some (.node "testsuite" [] [.node "testcase"
    [("classname", "suite"), ("name", "test_bug")] []])
  else none

/-- A workspace whose test fails until it is fixed. -/
def fixedSandbox : SandboxHost Bool where
  exec command _ fixed := some (if startswith "cat " command then
      ⟨0, if fixed then passedXml else failedXml, ""⟩
    else ⟨if fixed then 0 else 1, "E1", ""⟩, fixed)
  uuid4 _ := "0"
  checkout _ := { editedFile with head := "0123456789abcdef0123456789abcdef01234567" }
  apply _ fixed := some fixed

def fixingHost : AttemptHost Bool where
  commit sha := ⟨sha, oneFile "src/main.py" [97]⟩
  start := some false
  agent _ := some true
  verification fixed := some fixed

def storedCommand : Shared.RunCommand :=
  Shared.snapshotCommand Shared.storedSnapshot "/repos/1" "run-1" 1 0 0 none

theorem storedSnapshot_covered :
    Covered twoReports Shared.storedSnapshot.baseline.command
      (execute twoReports fixedSandbox (plainGit editPatch) fixingHost Shared.storedSnapshot
        storedCommand) := by
  have hsent : Shared.commandFromSnapshot Shared.isHttpsUrl Shared.sentSnapshot "/repos/1" "run-1"
      1 0 0 none = some storedCommand :=
    Shared.commandFromSnapshot_eq Shared.storedSnapshot_eq "/repos/1" (by decide) (by decide)
      (by decide) 0 0 none
  exact baseline_tests_pass hsent (Shared.read_of_commandFromSnapshot hsent) rfl (by decide)
    (by decide +kernel)

end Runtime

end AgentReliability
