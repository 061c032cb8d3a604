import AgentReliability.ControlPlane.Enums
import AgentReliability.Runtime.Checkout
/-!
# The gates of the verifier

`VerifierPipeline.run`: what the patch is and which files it changes is
judged first (V1, V2, V6), then the check commands are run on the work tree
(V3, V4, V5), with the test patch of the benchmark applied. The first gate
that fails ends the run. `RealExecutor.execute` runs the pipeline in the
sandbox of the agent, or, for a task with a snapshot, in one of its own.
-/

namespace AgentReliability

namespace Runtime

open PythonText

open ControlPlane (FailureCode VerifierStep)

/-! ## The checks of a sandbox -/

structure ExecResult where
  exitCode : ℤ
  combined : String
  deriving DecidableEq, Repr

/-- The outcome of each test of a pytest run. -/
abbrev TestCases := List (String × String)

/-- **What the check commands do**, as functions of the files they run on:
the result, and the files they leave. There is none if the sandbox crashes.
Both take a command and its working directory. -/
structure Checks where
  /-- `Sandbox.exec`. -/
  exec : String → String → Tree → Option (ExecResult × Tree)
  /-- `run_check`: with the cases of the report, if the command is a run of
  pytest. -/
  runCheck : String → String → Tree → Option (ExecResult × Option TestCases × Tree)

/-- `coverage_preserved`. -/
def coveragePreserved (before after : TestCases) : Bool :=
  let required := (before.filter (·.2 ≠ "skipped")).map (·.1)
  required ≠ [] ∧ required.all fun name => after.lookup name = some "passed"

/-! ## Reports -/

structure CommandOutput where
  command : String
  exitCode : ℤ
  stdoutTail : String
  deriving DecidableEq, Repr

inductive StepDetail where
  | error (text : String)
  | patchBytes (n : ℕ)
  | violations (paths allowed : List String)
  | changedFiles (paths : List String)
  | tamperedFiles (paths : List String)
  | checkedFiles (n : ℕ)
  | failed (output : CommandOutput)
  | uncovered (command error : String) (testCases : TestCases) (stdoutTail : String)
  | commands (commands : List String) (outputs : List CommandOutput)
  deriving DecidableEq, Repr

structure StepResult where
  step : VerifierStep
  passed : Bool
  failureCode : Option FailureCode
  detail : StepDetail
  deriving DecidableEq, Repr

structure VerifyReport where
  passed : Bool
  results : List StepResult
  patch : String
  deriving DecidableEq, Repr

/-- `_record`, of a step that passed. -/
def StepResult.pass (step : VerifierStep) (detail : StepDetail) : StepResult :=
  ⟨step, true, none, detail⟩

/-- `_record`, of a step that failed. -/
def StepResult.fail (step : VerifierStep) (code : FailureCode) (detail : StepDetail) : StepResult :=
  ⟨step, false, some code, detail⟩

namespace VerifyReport

/-- The code of the first step that failed. -/
def failureCode (report : VerifyReport) : Option FailureCode :=
  (report.results.find? (¬ ·.passed)).bind (·.failureCode)

/-- What is reported of a run of the pipeline. -/
def verdict (report : VerifyReport) : Bool × Option FailureCode × String :=
  (report.passed, report.failureCode, report.patch)

end VerifyReport

/-! ## The pipeline -/

structure TaskSpec where
  workdir : String
  allowedPaths : List String
  staticCheck : List String := []
  failToPass : List String := []
  passToPass : List String := []
  testPatch : Option String := none
  deriving DecidableEq, Repr

structure VerifierPipeline where
  spec : TaskSpec
  base : Commit
  protectedPaths : List String := []
  verifyContract : Bool := false
  baselineCases : List (String × TestCases) := []

def testFileMarkers : List String := ["tests/", ".test.", ".spec.", "/test_"]

/-- `_is_test_file`. -/
def isTestFile (path : String) : Bool :=
  startswith "test_" (pathName path) || testFileMarkers.any (contains · path)

/-- `_changed_files`. -/
def changedFiles (git : GitCommands) (base : Commit) (w : Checkout) : List String :=
  (splitlines (git.nameOnly base w)).filter fun line => ¬ isBlank line

/-- `text[-3000:]`. -/
def outputTail (text : String) : String := .ofList (text.toList.drop (text.length - 3000))

namespace VerifierPipeline

variable (git : GitCommands) (checks : Checks) (p : VerifierPipeline)

/-- Some pattern allows the path to be changed. -/
def isAllowed (path : String) : Bool := p.spec.allowedPaths.any (fnmatch path)

/-- The path is of a test, or protected. -/
def isTampered (path : String) : Bool := isTestFile path || p.protectedPaths.any (fnmatch path)

def cwd : String := "/workspace/" ++ p.spec.workdir

/-- V1, V2 and V6: what the gates that come before the checks have to report,
and the patch; or the report of the run, if one of them fails. -/
def gates (w : Checkout) : Except VerifyReport (List StepResult × String) :=
  match w.capturePatch git p.base with
  | .error text =>
    .error ⟨false, [.fail .v1 .verifyPatchMalformed (.error text)], ""⟩
  | .ok (patch, w) =>
    if isBlank patch then
      .error ⟨false, [.fail .v1 .verifyPatchMalformed (.error "工作区相对 base 无任何变更")], ""⟩
    else
      let v1 := StepResult.pass .v1 (.patchBytes patch.utf8ByteSize)
      let changed := changedFiles git p.base w
      let violations := changed.filter (¬ p.isAllowed ·)
      if violations ≠ [] then
        .error ⟨false, [v1, .fail .v2 .verifyScopeViolation
          (.violations violations p.spec.allowedPaths)], patch⟩
      else
        let v2 := StepResult.pass .v2 (.changedFiles changed)
        let tampered := changed.filter p.isTampered
        if tampered ≠ [] then
          .error ⟨false, [v1, v2, .fail .v6 .verifyTestTampering (.tamperedFiles tampered)], patch⟩
        else
          .ok ([v1, v2, .pass .v6 (.checkedFiles changed.length)], patch)

/-- One command, with the cases of its report if the contract of the tests is
verified. -/
def check (command : String) (files : Tree) : Option (ExecResult × Option TestCases × Tree) :=
  if p.verifyContract then checks.runCheck command p.cwd files
  else (checks.exec command p.cwd files).map fun (result, files) => (result, none, files)

/-- What a command fails its step for, if it does. -/
def commandFailure (step : VerifierStep) (code : FailureCode) (command : String)
    (result : ExecResult) (cases : Option TestCases) : Option StepResult :=
  let stdoutTail := outputTail result.combined
  let uncovered : Bool := match p.baselineCases.lookup command with
    | some before => p.verifyContract ∧ result.exitCode = 0 ∧
        ¬ coveragePreserved before (cases.getD [])
    | none => false
  if uncovered then
    some (.fail step .verifyTestTampering (.uncovered command
      "Original tests were removed, skipped or still failing" (cases.getD []) stdoutTail))
  else if p.verifyContract ∧ cases = some [] then
    some (.fail step code (.uncovered command "No verifiable pytest test results" [] stdoutTail))
  else if result.exitCode ≠ 0 then
    some (.fail step code (.failed ⟨command, result.exitCode, stdoutTail⟩))
  else none

/-- `_run_commands`, from the commands that are left and the outputs of those
that were run. -/
def runCommands (step : VerifierStep) (code : FailureCode) (commands : List String) :
    List String → List CommandOutput → Tree → Option (StepResult × Tree)
  | [], outputs, files => some (.pass step (.commands commands outputs), files)
  | command :: rest, outputs, files => do
    let (result, cases, files) ← p.check checks command files
    match p.commandFailure step code command result cases with
    | some failure => return (failure, files)
    | none =>
      runCommands step code commands rest
        (outputs ++ [⟨command, result.exitCode, outputTail result.combined⟩]) files

/-- The files the checks are run on. -/
def checkedFiles (files : Tree) : Option Tree :=
  match p.spec.testPatch with
  | some patch => if isBlank patch then some files else git.apply files patch
  | none => some files

/-- V3, V4 and V5, after the gates. The test patch is taken back at the end;
if that fails, it is left. -/
def runChecks (results : List StepResult) (patch : String) (files : Tree) :
    Option VerifyReport := do
  match p.checkedFiles git files with
  | none => return ⟨false, results ++ [.fail .v4 .verifyTargetTestsFailed
      (.error "应用基准 test_patch 失败")], patch⟩
  | some files =>
    let (v3, files) ← p.runCommands checks .v3 .verifyStaticFailed p.spec.staticCheck
      p.spec.staticCheck [] files
    if ¬ v3.passed then
      return ⟨false, results ++ [v3], patch⟩
    let (v4, files) ← p.runCommands checks .v4 .verifyTargetTestsFailed p.spec.failToPass
      p.spec.failToPass [] files
    if ¬ v4.passed then
      return ⟨false, results ++ [v3, v4], patch⟩
    let (v5, _) ← p.runCommands checks .v5 .verifyRegressionFailed p.spec.passToPass
      p.spec.passToPass [] files
    return ⟨v5.passed, results ++ [v3, v4, v5], patch⟩

/-- `VerifierPipeline.run`. -/
def run (w : Checkout) : Option VerifyReport :=
  match p.gates git w with
  | .error report => some report
  | .ok (results, patch) => p.runChecks git checks results patch w.files

end VerifierPipeline

end Runtime

end AgentReliability
