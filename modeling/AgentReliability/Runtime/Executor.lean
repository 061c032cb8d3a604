import AgentReliability.Common.Traces
import AgentReliability.ControlPlane.System
import AgentReliability.Runtime.Coverage
/-!
# The executor and its sandboxes

`RealExecutor.execute` runs the agent in one sandbox and, for a snapshot,
the checks in another, which is made from the candidate patch. Every step
may raise. The first sandbox is destroyed by the outermost `finally`; the
second by one of its own, which begins only after the candidate was applied
to it.

`os._exit` of the injected fault is an effect that is never answered. The
budget context is left out: to set and to reset it does not raise.
-/

namespace AgentReliability

namespace Runtime

open PythonText ControlPlane

/-! ## Its steps -/

/-- What a step raises. -/
inductive Raised where
  /-- An `Exception`, by its class and its text. -/
  | exception (name text : String)
  /-- A `KeyboardInterrupt` or a `SystemExit`. -/
  | interrupt
  deriving DecidableEq, Repr

inductive Sandbox where
  | repair
  | verification
  deriving DecidableEq, Repr

/-- The environment the control plane has pinned, if any. -/
structure PinnedEnvironment where
  imageId : Option String
  fingerprint : String

structure PreparedEnvironment where
  fingerprint : String
  imageId : String
  log : String

inductive PhaseDetail where
  | error (text : String)
  | baseline (classification : BaselineClass) (command : String) (exitCode : ℤ) (output : String)
      (testCases : Option TestCases) (sha : String)

inductive EvidenceKind where
  | baseline (classification : BaselineClass) (output : String) (testCases : Option TestCases)
  | checkpoint
  | error (name : String)

/-- `verification` of the last failure of a checkpoint. -/
structure FailedVerification where
  step : String
  detail : String

structure LastFailure where
  failureCode : String
  verification : Option FailedVerification

/-- What `GET /internal/checkpoints/{id}` answers, as far as it is read. -/
structure CheckpointBody where
  appliedPatch : Option String
  feedbackMode : Option String
  lastFailure : Option LastFailure

/-- What `save_checkpoint` sends. -/
structure CheckpointPayload where
  threadId : RunId
  baseCommit : String
  appliedPatchSha : Option String
  appliedPatch : Option String
  usedTokens : ℕ
  usedSeconds : ℕ

structure AgentResult where
  usedTokens : ℕ
  usedSeconds : ℕ

inductive AttemptStatus where
  | succeeded
  | failed
  | paused
  deriving DecidableEq, Repr

structure AttemptOutcome where
  status : AttemptStatus
  failureCode : Option FailureCode := none
  usedTokens : ℕ := 0
  usedSeconds : ℕ := 0
  verification : List StepResult := []
  patch : Option String := none
  judge : Option String := none
  deriving DecidableEq, Repr

inductive ExecEffect where
  | phase (phase : String) (detail : Option PhaseDetail)
  | pause (reason : String) (patch : Option String)
  | getImage (imageId : String)
  | prepareEnvironment (timeout : ℕ)
  | environment (prepared : PreparedEnvironment)
  /-- `provider.start`, for a variable. -/
  | start (sandbox : Sandbox) (imageId : Option String)
  /-- `Sandbox.destroy`. -/
  | destroy (sandbox : Sandbox)
  | runCheck (command : String) (timeout : ℕ) (cwd : String)
  | saveEvidence (patch : String) (evidence : EvidenceKind)
  | getCheckpoint (id : CheckpointId)
  /-- `git apply` of the patch of a checkpoint. -/
  | restore (patch : String)
  | currentDiff
  | saveCheckpoint (payload : CheckpointPayload)
  | emitSaved (checkpoint : String) (usedTokens usedSeconds : ℕ)
  /-- `os._exit(137)`. -/
  | exit
  | readGoldPatch (fixtureId : String)
  | buildModel (goldPatch : String) (failToPass : List String)
  /-- `adapter.execute`, with the checkpoints it saves. -/
  | runAgent (resume : Bool) (feedback : Option String)
  /-- `git apply` of the candidate. -/
  | applyCandidate (patch : String)
  /-- `pipeline.run`. -/
  | verify (sandbox : Sandbox) (baselineCases : Option TestCases)
  | judge (criteria : List String) (patch : String) (verification : List StepResult)

@[reducible] def ExecEffect.Answer : ExecEffect → Type
  | phase _ _ => PinnedEnvironment
  | getImage _ => String
  | prepareEnvironment _ => PreparedEnvironment
  | runCheck _ _ _ => ExecResult × Option TestCases
  | getCheckpoint _ => CheckpointBody
  | currentDiff => String
  | saveCheckpoint _ => String
  | readGoldPatch _ => String
  | runAgent _ _ => AgentResult
  | verify _ _ => VerifyReport
  | judge _ _ _ => Option String
  | _ => Unit

abbrev ExecProgram := Program ExecEffect ExecEffect.Answer Raised

/-! ## The function -/

/-- The settings it reads. -/
structure ExecutorSettings where
  mockMode : Bool
  llmProvider : String
  faultInject : String
  sandboxTimeoutS : ℕ
  sha256 : String → String

/-- `text[:n]`. -/
def firstChars (n : ℕ) (text : String) : String := String.ofList (text.toList.take n)

/-- `text[-n:]`, of a positive `n`. -/
def lastChars (n : ℕ) (text : String) : String :=
  String.ofList (text.toList.drop (text.length - n))

/-- `try: body / except Exception as exc: handler`. -/
def exceptExceptionAs {α : Type} (body : ExecProgram α) (handler : String → String → ExecProgram α) :
    ExecProgram α :=
  body.tryExcept fun
    | .exception name text => handler name text
    | .interrupt => .raise .interrupt

/-- The classification as a text. -/
def BaselineClass.name : BaselineClass → String
  | notReproduced => "NOT_REPRODUCED"
  | environmentError => "ENVIRONMENT_ERROR"
  | reproduced => "REPRODUCED"
  | evidenceMismatch => "EVIDENCE_MISMATCH"

/-- `_build_feedback`. -/
def buildFeedback (checkpoint : CheckpointBody) (fineGrained : Bool) : Option String :=
  checkpoint.lastFailure.map fun failure =>
    let parts :=
      if checkpoint.feedbackMode = some "raw" then
        ["上一次尝试失败。原始输出如下：",
          match failure.verification with
          | some verification => firstChars 3000 verification.detail
          | none => "(无输出)"]
      else
        s!"上一次尝试失败，失败码: {failure.failureCode}" ::
          match failure.verification with
          | some verification =>
            [s!"验证步骤 {verification.step} 未通过，详情: {firstChars 3000 verification.detail}"]
          | none => []
    "\n".intercalate (parts ++
      [if fineGrained then "请基于当前工作区继续修复（之前应用的补丁已保留）。"
        else "工作区已重置为初始状态，请重新完成修复并避开上述失败原因。"])

namespace RealExecutor

open Program (call)

variable (settings : ExecutorSettings) (command : RunCommand)

def fineGrained : Bool := command.agentKind ≠ .miniSwe

/-- The pinned image, or a new one. -/
def preparedEnvironment (pinned : PinnedEnvironment) : ExecProgram PreparedEnvironment :=
  match pinned.imageId.filter (· ≠ "") with
  | some imageId => do
    let id ← call (ExecEffect.getImage imageId)
    pure ⟨pinned.fingerprint, id, "Reused pinned task environment"⟩
  | none => call (ExecEffect.prepareEnvironment command.budget.remainingSeconds)

/-- The environment of a snapshot, unless the attempt is paused for it. -/
def prepare : ExecProgram (Option String) := do
  let pinned ← call (ExecEffect.phase "PREPARING" none)
  if settings.mockMode = true ∨ settings.llmProvider = "fake" then do
    call (ExecEffect.pause "REAL_TASK_REQUIRES_REAL_MODEL" none)
    pure none
  else
    exceptExceptionAs
      (do
        let prepared ← preparedEnvironment command pinned
        call (ExecEffect.environment prepared)
        pure (some prepared.imageId))
      (fun _ text => do
        let _ ← call (ExecEffect.phase "PREPARING" (some (.error (firstChars 2000 text))))
        call (ExecEffect.pause "ENVIRONMENT_ERROR" none)
        pure none)

/-- The baseline check of a snapshot: the cases of its report, unless the
attempt is paused for it. -/
def reproduce (snapshot : TaskSnapshot) : ExecProgram (Option (Option TestCases)) := do
  let _ ← call (ExecEffect.phase "REPRODUCING" none)
  let (baseline, cases) ← call (ExecEffect.runCheck snapshot.baseline.command
    (min command.budget.remainingSeconds settings.sandboxTimeoutS)
    ("/workspace/" ++ command.taskSpec.workdir))
  let classification := classifyBaseline baseline.exitCode baseline.combined snapshot.baseline.expected
  call (ExecEffect.saveEvidence ""
    (.baseline classification (lastChars 20000 baseline.combined) cases))
  let _ ← call (ExecEffect.phase "BASELINE" (some (.baseline classification
    snapshot.baseline.command baseline.exitCode (lastChars 20000 baseline.combined) cases
    command.repo.baseCommit)))
  if classification ≠ .reproduced then do
    call (ExecEffect.pause classification.name none)
    pure none
  else do
    let _ ← call (ExecEffect.phase "REPAIRING" none)
    pure (some cases)

/-- `resume`, before the adapter's capabilities. -/
def resumes : Option CheckpointId :=
  if command.type = .resumeRun then command.checkpointId else none

/-- `_restore_from_checkpoint`. -/
def restoreFromCheckpoint (checkpoint : CheckpointBody) : ExecProgram Unit :=
  match checkpoint.appliedPatch with
  | none => pure ()
  | some patch => Program.onlyIf (isBlank patch = false) (call (ExecEffect.restore patch))

/-- The state a resumed attempt goes on from: the feedback. -/
def restoreState : ExecProgram (Option String) :=
  match resumes command with
  | none => pure none
  | some id => do
    let checkpoint ← call (ExecEffect.getCheckpoint id)
    Program.onlyIf (fineGrained command = true) (restoreFromCheckpoint checkpoint)
    pure (buildFeedback checkpoint (fineGrained command))

def onCheckpoint (usedTokens usedSeconds : ℕ) : ExecProgram Unit := do
  let diff ← call ExecEffect.currentDiff
  Program.onlyIf (command.snapshot.isSome = true) (call (ExecEffect.saveEvidence diff .checkpoint))
  let id ← call (ExecEffect.saveCheckpoint {
    threadId := command.runId
    baseCommit := command.repo.baseCommit
    appliedPatchSha := if isBlank diff then none
      else some ("sha256:" ++ firstChars 16 (settings.sha256 diff))
    appliedPatch := if isBlank diff then none else some diff
    usedTokens
    usedSeconds })
  call (ExecEffect.emitSaved id usedTokens usedSeconds)
  Program.onlyIf (settings.faultInject = "kill-worker" ∧ command.attemptNo = 1 ∧ isBlank diff = false)
    (call ExecEffect.exit)

/-- The script of the fake model. -/
def goldPatch : ExecProgram String :=
  match command.taskSpec.fixtureId.filter (· ≠ "") with
  | some fixtureId => call (ExecEffect.readGoldPatch fixtureId)
  | none => pure ""

/-- The model of the agent that is given one. -/
def buildModel : ExecProgram Unit := do
  let gold ← goldPatch command
  call (ExecEffect.buildModel gold command.taskSpec.failToPass)

/-- The adapter, and its run. -/
def runAgent (feedback : Option String) : ExecProgram AgentResult := do
  Program.onlyIf (command.agentKind ≠ .miniSwe) (buildModel command)
  call (ExecEffect.runAgent ((resumes command).isSome && fineGrained command) feedback)

/-- The sandbox the checks run in. -/
def verificationSandbox (imageId : Option String) : ExecProgram Sandbox :=
  match command.snapshot with
  | none => pure .repair
  | some _ => do
    let _ ← call (ExecEffect.phase "VERIFYING" none)
    let candidate ← call ExecEffect.currentDiff
    call (ExecEffect.start .verification imageId)
    Program.onlyIf (isBlank candidate = false) (call (ExecEffect.applyCandidate candidate))
    pure .verification

/-- `try: pipeline.run() / finally: destroy`. -/
def verifyIn (baselineCases : Option TestCases) (sandbox : Sandbox) : ExecProgram VerifyReport :=
  Program.tryFinally (call (ExecEffect.verify sandbox baselineCases))
    (Program.onlyIf (sandbox ≠ .repair) (call (ExecEffect.destroy sandbox)))

def finish (agent : AgentResult) (report : VerifyReport) : ExecProgram AttemptOutcome :=
  if report.passed then do
    let judge ← call (ExecEffect.judge command.taskSpec.acceptanceCriteria report.patch report.results)
    pure { status := .succeeded, usedTokens := agent.usedTokens, usedSeconds := agent.usedSeconds
           verification := report.results, patch := some report.patch, judge }
  else do
    onCheckpoint settings command agent.usedTokens agent.usedSeconds
    pure { status := .failed, failureCode := report.failureCode
           usedTokens := agent.usedTokens, usedSeconds := agent.usedSeconds
           verification := report.results
           patch := if report.patch = "" then none else some report.patch }

/-- From the agent on. -/
def repair (imageId : Option String) (baselineCases : Option TestCases) :
    ExecProgram AttemptOutcome := do
  let feedback ← restoreState command
  let agent ← runAgent command feedback
  let sandbox ← verificationSandbox command imageId
  let report ← verifyIn baselineCases sandbox
  finish settings command agent report

/-- The `try` block, once the sandbox is started. -/
def inSandbox (imageId : Option String) : ExecProgram AttemptOutcome :=
  match command.snapshot with
  | none => repair settings command imageId none
  | some snapshot => do
    match ← reproduce settings command snapshot with
    | none => pure { status := .paused }
    | some cases => repair settings command imageId cases

/-- The diff of the sandbox, or `""`. Without a sandbox there is nothing to
take it of. -/
def lastDiff (sandbox : Option Sandbox) : ExecProgram String :=
  match sandbox with
  | some _ => exceptExceptionAs (call ExecEffect.currentDiff) fun _ _ => pure ""
  | none => pure ""

/-- The `except` block. -/
def onException (sandbox : Option Sandbox) (name text : String) : ExecProgram AttemptOutcome :=
  match command.snapshot with
  | none => .raise (.exception name text)
  | some _ => do
    let patch ← lastDiff sandbox
    call (ExecEffect.saveEvidence patch (.error name))
    call (ExecEffect.pause (if name = "UsageUnknown" then "MODEL_USAGE_UNKNOWN" else name) (some patch))
    pure { status := .paused }

/-- The `try` statement, with what `sandbox` is by then. -/
def guarded (sandbox : Option Sandbox) (body : ExecProgram AttemptOutcome) :
    ExecProgram AttemptOutcome :=
  Program.tryFinally (exceptExceptionAs body (onException command sandbox))
    (match sandbox with
      | some sandbox => call (ExecEffect.destroy sandbox)
      | none => pure ())

/-- The `try` statement: the first thing it does is to start the sandbox. -/
def attempt (imageId : Option String) : ExecProgram AttemptOutcome :=
  .perform (.start .repair (imageId.filter (· ≠ ""))) fun
    | .ok () => guarded command (some .repair) (inSandbox settings command imageId)
    | .error e => guarded command none (.raise e)

/-- `RealExecutor.execute`. -/
def execute : ExecProgram AttemptOutcome :=
  match command.snapshot with
  | none => attempt settings command none
  | some _ => do
    match ← prepare settings command with
    | none => pure { status := .paused }
    | some imageId => attempt settings command (some imageId)

end RealExecutor

/-! ## The lifetimes of the sandboxes -/

/-- A step that was done, and what came of it. -/
abbrev ExecDone := Program.Done ExecEffect.Answer Raised

def ExecEffect.exits : ExecEffect → Bool
  | exit => true
  | _ => false

/-- Any step may return or raise, but for the exit of the process. -/
def Answered (effect : ExecEffect) (_ : Except Raised effect.Answer) : Prop := effect.exits = false

/-- **Whenever it is started, it is destroyed later on.** -/
def DestroyedIn (s : Sandbox) (trace : List ExecDone) : Prop :=
  ∀ before imageId after, trace = before ++ ⟨.start s imageId, .ok ()⟩ :: after →
    ∃ answer, ⟨.destroy s, answer⟩ ∈ after

def EachDestroyed (trace : List ExecDone) : Prop := ∀ s, DestroyedIn s trace

/-- Applying the candidate, if it was tried, did not raise. -/
def CandidateApplied (trace : List ExecDone) : Prop :=
  ∀ patch e, ⟨.applyCandidate patch, .error e⟩ ∉ trace

/-- The steps the lifetime of a sandbox is about. -/
def Touches (s : Sandbox) : ExecEffect → Prop
  | .start s' _ => s' = s
  | .destroy s' => s' = s
  | .applyCandidate _ => s = .verification
  | _ => False

section

variable {s : Sandbox} {trace u w : List ExecDone}

/-- Where a step stands in a trace of two stretches. -/
theorem mem_left {before after : List ExecDone} {x : ExecDone} (h : u ++ w = before ++ x :: after)
    (hx : x ∉ w) : ∃ rest, u = before ++ x :: rest ∧ after = rest ++ w := by
  rcases List.append_eq_append_iff.mp h with ⟨c, hbefore, hw⟩ | ⟨c, hu, hafter⟩
  · exact absurd (by rw [hw]; simp) hx
  · cases c with
    | nil => exact absurd (by rw [← List.nil_append w, ← hafter]; simp) hx
    | cons y c =>
      obtain ⟨rfl, rfl⟩ := List.cons.inj hafter
      exact ⟨c, hu, rfl⟩

theorem mem_right {before after : List ExecDone} {x : ExecDone} (h : u ++ w = before ++ x :: after)
    (hx : x ∉ u) : ∃ rest, before = u ++ rest ∧ w = rest ++ x :: after := by
  rcases List.append_eq_append_iff.mp h with ⟨c, hbefore, hw⟩ | ⟨c, hu, hafter⟩
  · exact ⟨c, hbefore, hw⟩
  · cases c with
    | nil => exact ⟨[], by simpa using hu.symm, by simpa using hafter.symm⟩
    | cons y c =>
      obtain ⟨rfl, rfl⟩ := List.cons.inj hafter
      exact absurd (by rw [hu]; simp) hx

theorem not_mem_of_untouched (h : ∀ x ∈ trace, ¬ Touches s x.1) {effect : ExecEffect}
    {answer : Except Raised effect.Answer} (heffect : Touches s effect) : ⟨effect, answer⟩ ∉ trace :=
  fun hmem => h _ hmem heffect

theorem DestroyedIn.of_not_started (h : ∀ imageId, ⟨.start s imageId, .ok ()⟩ ∉ trace) :
    DestroyedIn s trace := by
  intro before imageId after htrace
  exact absurd (by rw [htrace]; simp) (h imageId)

/-- It is destroyed after anything else. -/
theorem DestroyedIn.of_destroyed (hstart : ∀ imageId, ⟨.start s imageId, .ok ()⟩ ∉ w)
    {a : Except Raised Unit} (h : ⟨.destroy s, a⟩ ∈ w) : DestroyedIn s (u ++ w) := by
  intro before imageId after htrace
  obtain ⟨rest, -, hafter⟩ := mem_left htrace (hstart imageId)
  exact ⟨a, by rw [hafter]; exact List.mem_append_right _ h⟩

theorem destroyedIn_append_left (hu : ∀ x ∈ u, ¬ Touches s x.1) :
    DestroyedIn s (u ++ w) ↔ DestroyedIn s w := by
  constructor
  · intro h before imageId after hw
    exact h (u ++ before) imageId after (by rw [hw, List.append_assoc])
  · intro h before imageId after htrace
    obtain ⟨rest, -, hw⟩ := mem_right htrace (not_mem_of_untouched hu rfl)
    exact h rest imageId after hw

theorem destroyedIn_append_right (hw : ∀ x ∈ w, ¬ Touches s x.1) :
    DestroyedIn s (u ++ w) ↔ DestroyedIn s u := by
  constructor
  · intro h before imageId after hu
    obtain ⟨answer, hmem⟩ := h before imageId (after ++ w) (by rw [hu]; simp)
    rcases List.mem_append.mp hmem with hmem | hmem
    · exact ⟨answer, hmem⟩
    · exact absurd hmem (not_mem_of_untouched hw rfl)
  · intro h before imageId after htrace
    obtain ⟨rest, hu, hafter⟩ := mem_left htrace (not_mem_of_untouched hw rfl)
    obtain ⟨answer, hmem⟩ := h before imageId rest hu
    exact ⟨answer, by rw [hafter]; exact List.mem_append_left _ hmem⟩

theorem candidateApplied_append_left (hu : ∀ x ∈ u, ¬ Touches .verification x.1) :
    CandidateApplied (u ++ w) ↔ CandidateApplied w := by
  constructor
  · intro h patch e hmem
    exact h patch e (List.mem_append_right _ hmem)
  · intro h patch e hmem
    rcases List.mem_append.mp hmem with hmem | hmem
    · exact hu _ hmem rfl
    · exact h patch e hmem

theorem candidateApplied_append_right (hw : ∀ x ∈ w, ¬ Touches .verification x.1) :
    CandidateApplied (u ++ w) ↔ CandidateApplied u := by
  constructor
  · intro h patch e hmem
    exact h patch e (List.mem_append_left _ hmem)
  · intro h patch e hmem
    rcases List.mem_append.mp hmem with hmem | hmem
    · exact h patch e hmem
    · exact hw _ hmem rfl

/-- **The sandbox of the checks is destroyed exactly if the candidate was
applied to it.** -/
def Exact (trace : List ExecDone) : Prop := DestroyedIn .verification trace ↔ CandidateApplied trace

theorem Exact.append_left (h : Exact w) (hu : ∀ x ∈ u, ¬ Touches .verification x.1) :
    Exact (u ++ w) := by
  unfold Exact
  rw [destroyedIn_append_left hu, candidateApplied_append_left hu]
  exact h

theorem Exact.append_right (h : Exact u) (hw : ∀ x ∈ w, ¬ Touches .verification x.1) :
    Exact (u ++ w) := by
  unfold Exact
  rw [destroyedIn_append_right hw, candidateApplied_append_right hw]
  exact h

theorem Exact.of_untouched (h : ∀ x ∈ trace, ¬ Touches .verification x.1) : Exact trace :=
  ⟨fun _ _ _ => not_mem_of_untouched h rfl,
    fun _ => .of_not_started fun _ => not_mem_of_untouched h rfl⟩

end

/-! ## The parts of the function -/

namespace RealExecutor

open Program

variable {settings : ExecutorSettings} {command : RunCommand} {s : Sandbox}

theorem uses_exceptExceptionAs {α : Type} {P : ExecEffect → Prop} {body : ExecProgram α}
    {handler : String → String → ExecProgram α} (hbody : body.Uses P)
    (hhandler : ∀ name text, (handler name text).Uses P) : (exceptExceptionAs body handler).Uses P := by
  refine uses_tryExcept hbody fun e => ?_
  cases e with
  | exception name text => exact hhandler name text
  | interrupt => exact uses_raise _

theorem untouched_prepare : (prepare settings command).Uses fun e => ¬ Touches s e := by
  unfold prepare
  refine uses_bind (uses_call id) fun pinned => ?_
  split
  · exact uses_bind (uses_call id) fun _ => uses_pure _
  · refine uses_exceptExceptionAs (uses_bind ?_ fun _ => ?_) fun _ _ => ?_
    · unfold preparedEnvironment
      split
      · exact uses_bind (uses_call id) fun _ => uses_pure _
      · exact uses_call id
    · exact uses_bind (uses_call id) fun _ => uses_pure _
    · exact uses_bind (uses_call id) fun _ => uses_bind (uses_call id) fun _ => uses_pure _

theorem untouched_reproduce (snapshot : TaskSnapshot) :
    (reproduce settings command snapshot).Uses fun e => ¬ Touches s e := by
  unfold reproduce
  refine uses_bind (uses_call id) fun _ => uses_bind (uses_call id) fun _ => ?_
  refine uses_bind (uses_call id) fun _ => uses_bind (uses_call id) fun _ => ?_
  split
  · exact uses_bind (uses_call id) fun _ => uses_pure _
  · exact uses_bind (uses_call id) fun _ => uses_pure _

theorem untouched_restoreState : (restoreState command).Uses fun e => ¬ Touches s e := by
  unfold restoreState
  split
  · exact uses_pure _
  · refine uses_bind (uses_call id) fun checkpoint =>
      uses_bind (uses_onlyIf fun _ => ?_) fun _ => uses_pure _
    unfold restoreFromCheckpoint
    split
    · exact uses_pure _
    · exact uses_onlyIf fun _ => uses_call id

theorem untouched_onCheckpoint (usedTokens usedSeconds : ℕ) :
    (onCheckpoint settings command usedTokens usedSeconds).Uses fun e => ¬ Touches s e := by
  unfold onCheckpoint
  refine uses_bind (uses_call id) fun diff => uses_bind (uses_onlyIf fun _ => uses_call id) fun _ => ?_
  refine uses_bind (uses_call id) fun _ => uses_bind (uses_call id) fun _ => ?_
  exact uses_onlyIf fun _ => uses_call id

theorem untouched_runAgent (feedback : Option String) :
    (runAgent command feedback).Uses fun e => ¬ Touches s e := by
  unfold runAgent buildModel
  refine uses_bind (uses_onlyIf fun _ => uses_bind ?_ fun _ => uses_call id) fun _ => uses_call id
  unfold goldPatch
  split
  · exact uses_call id
  · exact uses_pure _

theorem untouched_finish (agent : AgentResult) (report : VerifyReport) :
    (finish settings command agent report).Uses fun e => ¬ Touches s e := by
  unfold finish
  split
  · exact uses_bind (uses_call id) fun _ => uses_pure _
  · exact uses_bind (untouched_onCheckpoint _ _) fun _ => uses_pure _

theorem untouched_onException (sandbox : Option Sandbox) (name text : String) :
    (onException command sandbox name text).Uses fun e => ¬ Touches s e := by
  unfold onException
  split
  · exact uses_raise _
  · refine uses_bind ?_ fun _ => uses_bind (uses_call id) fun _ =>
      uses_bind (uses_call id) fun _ => uses_pure _
    unfold lastDiff
    split
    · exact uses_exceptExceptionAs (uses_call id) fun _ _ => uses_pure _
    · exact uses_pure _

/-- The first sandbox is left to the outermost statement. -/
theorem untouched_repair (imageId : Option String) (cases : Option TestCases) :
    (repair settings command imageId cases).Uses fun e => ¬ Touches .repair e := by
  unfold repair
  refine uses_bind untouched_restoreState fun _ => uses_bind (untouched_runAgent _) fun _ => ?_
  refine uses_bind ?_ fun sandbox => uses_bind ?_ fun _ => untouched_finish _ _
  · unfold verificationSandbox
    split
    · exact uses_pure _
    · refine uses_bind (uses_call id) fun _ => uses_bind (uses_call id) fun _ => ?_
      refine uses_bind (uses_call (by simp [Touches])) fun _ => uses_bind ?_ fun _ => uses_pure _
      exact uses_onlyIf fun _ => uses_call (by simp [Touches])
  · unfold verifyIn
    exact uses_tryFinally (uses_call id) (uses_onlyIf fun hne => uses_call hne)

theorem untouched_inSandbox (imageId : Option String) :
    (inSandbox settings command imageId).Uses fun e => ¬ Touches .repair e := by
  unfold inSandbox
  split
  · exact untouched_repair _ _
  · refine uses_bind (untouched_reproduce _) fun cases => ?_
    split
    · exact uses_pure _
    · exact untouched_repair _ _

/-! ## What a run has done -/

variable {trace : List ExecDone} {α : Type}

/-- A program that leaves the second sandbox alone. -/
theorem exact_of_uses {p : ExecProgram α} {out : Except Raised α} (hrun : Run Answered p trace out)
    (h : p.Uses fun e => ¬ Touches .verification e) : Exact trace :=
  .of_untouched (hrun.of_uses h)

/-- What comes first leaves it alone. -/
theorem exact_of_bind {β : Type} {p : ExecProgram β} {f : β → ExecProgram α}
    {out : Except Raised α} (hrun : Run Answered (p >>= f) trace out)
    (hp : p.Uses fun e => ¬ Touches .verification e)
    (hf : ∀ b trace, Run Answered (f b) trace out → Exact trace) : Exact trace := by
  rcases hrun.bind_inv with ⟨e, -, hfirst⟩ | ⟨b, before, after, rfl, hfirst, hrest⟩
  · exact exact_of_uses hfirst hp
  · exact (hf b after hrest).append_left (hfirst.of_uses hp)

/-- The checks end with the destruction of their sandbox, whatever they
raise. -/
theorem verifyIn_trace {cases : Option TestCases} {out : Except Raised VerifyReport}
    (hrun : Run Answered (verifyIn cases .verification) trace out) :
    ∃ checks answer, trace = checks ++ [⟨.destroy .verification, answer⟩] ∧
      ∀ x ∈ checks, ¬ Touches .verification x.1 := by
  obtain ⟨result, ended, checks, last, rfl, hverify, hdestroy, -⟩ := hrun.tryFinally_inv
  obtain ⟨rfl, -⟩ := hverify.call_inv
  obtain ⟨rfl, -⟩ := Run.call_inv (e := ExecEffect.destroy .verification) hdestroy
  exact ⟨_, ended, rfl, by simp [Touches]⟩

/-- **Once the second sandbox is started**, it is destroyed unless applying
the candidate raises. -/
theorem exact_of_started {candidate : String} {cases : Option TestCases} {imageId : Option String}
    {finish : VerifyReport → ExecProgram α} {out : Except Raised α}
    (hfinish : ∀ report, (finish report).Uses fun e => ¬ Touches .verification e)
    (hrun : Run Answered ((onlyIf (isBlank candidate = false)
      (call (ExecEffect.applyCandidate candidate))) >>= fun _ =>
        verifyIn cases .verification >>= finish) trace out) :
    Exact (⟨.start .verification imageId, .ok ()⟩ :: trace) := by
  rcases hrun.bind_inv with ⟨e, rfl, happly⟩ | ⟨⟨⟩, before, after, rfl, happly, hrest⟩
  · -- The candidate does not apply: nothing destroys the sandbox.
    unfold onlyIf at happly
    split at happly
    · obtain ⟨rfl, -⟩ := happly.call_inv
      constructor
      · intro h
        obtain ⟨answer, hmem⟩ := h [] imageId _ rfl
        exact absurd hmem (by simp)
      · intro h
        exact absurd (by simp) (h candidate e)
    · obtain ⟨-, hnot⟩ := happly.ret_inv
      exact absurd hnot (by simp)
  · have hbefore : ∀ patch e, ⟨.applyCandidate patch, .error e⟩ ∉ before := by
      unfold onlyIf at happly
      split at happly
      · obtain ⟨rfl, -⟩ := happly.call_inv
        simp
      · obtain ⟨rfl, -⟩ := happly.ret_inv
        simp
    obtain ⟨checks, rest, answer, rfl, hchecks, hrest⟩ : ∃ checks rest answer,
        after = checks ++ ⟨.destroy .verification, answer⟩ :: rest ∧
          (∀ x ∈ checks, ¬ Touches .verification x.1) ∧ ∀ x ∈ rest, ¬ Touches .verification x.1 := by
      rcases hrest.bind_inv with ⟨e, -, hverify⟩ | ⟨report, checked, rest, rfl, hverify, hfinal⟩
      · obtain ⟨checks, answer, rfl, hchecks⟩ := verifyIn_trace hverify
        exact ⟨checks, [], answer, rfl, hchecks, by simp⟩
      · obtain ⟨checks, answer, rfl, hchecks⟩ := verifyIn_trace hverify
        exact ⟨checks, rest, answer, by simp, hchecks, hfinal.of_uses (hfinish report)⟩
    have happlied : CandidateApplied (⟨.start .verification imageId, .ok ()⟩ ::
        (before ++ (checks ++ ⟨.destroy .verification, answer⟩ :: rest))) := by
      intro patch e hmem
      simp only [List.mem_cons, List.mem_append, Sigma.mk.injEq, reduceCtorEq, false_and,
        false_or] at hmem
      rcases hmem with hmem | hmem | hmem
      · exact hbefore patch e hmem
      · exact hchecks _ hmem rfl
      · exact hrest _ hmem rfl
    have hdestroyed : DestroyedIn .verification ((⟨.start .verification imageId, .ok ()⟩ ::
        (before ++ checks)) ++ ⟨.destroy .verification, answer⟩ :: rest) := by
      refine .of_destroyed (a := answer) (fun imageId hmem => ?_) (by simp)
      rcases List.mem_cons.mp hmem with hmem | hmem
      · exact absurd hmem (by simp)
      · exact hrest _ hmem rfl
    rw [List.cons_append, List.append_assoc] at hdestroyed
    exact ⟨fun _ => happlied, fun _ => hdestroyed⟩

theorem exact_repair {imageId : Option String} {cases : Option TestCases}
    {out : Except Raised AttemptOutcome}
    (hrun : Run Answered (repair settings command imageId cases) trace out) : Exact trace := by
  refine exact_of_bind hrun untouched_restoreState fun feedback trace hrun => ?_
  refine exact_of_bind hrun (untouched_runAgent feedback) fun agent trace hrun => ?_
  unfold verificationSandbox at hrun
  split at hrun
  · -- A fixture has the one sandbox.
    rw [pure_bind] at hrun
    refine exact_of_uses hrun (uses_bind ?_ fun report => untouched_finish agent report)
    exact uses_tryFinally (uses_call id) (uses_onlyIf fun hne => absurd rfl hne)
  · simp only [bind_assoc, pure_bind] at hrun
    refine exact_of_bind hrun (uses_call id) fun _ trace hrun => ?_
    refine exact_of_bind hrun (uses_call id) fun candidate trace hrun => ?_
    rcases hrun.bind_inv with ⟨e, -, hstart⟩ | ⟨⟨⟩, before, after, rfl, hstart, hrest⟩
    · obtain ⟨rfl, -⟩ := hstart.call_inv
      exact ⟨fun _ => by simp [CandidateApplied], fun _ => .of_not_started (by simp)⟩
    · obtain ⟨rfl, -⟩ := hstart.call_inv
      exact exact_of_started (untouched_finish agent) hrest

theorem exact_inSandbox {imageId : Option String} {out : Except Raised AttemptOutcome}
    (hrun : Run Answered (inSandbox settings command imageId) trace out) : Exact trace := by
  unfold inSandbox at hrun
  split at hrun
  · exact exact_repair hrun
  · refine exact_of_bind hrun (untouched_reproduce _) fun cases trace hrun => ?_
    split at hrun
    · exact exact_of_uses hrun (uses_pure _)
    · exact exact_repair hrun

/-- The outermost statement: what it adds to its body. -/
theorem guarded_trace {sandbox : Option Sandbox} {body : ExecProgram AttemptOutcome}
    {out : Except Raised AttemptOutcome}
    (hrun : Run Answered (guarded command sandbox body) trace out) :
    ∃ inner result handled last, trace = (inner ++ handled) ++ last ∧ Run Answered body inner result ∧
      (∀ s, ∀ x ∈ handled, ¬ Touches s x.1) ∧ ∃ answer : Except Raised Unit, last =
        sandbox.toList.map fun sandbox => (⟨.destroy sandbox, answer⟩ : ExecDone) := by
  obtain ⟨result, ended, before, last, rfl, hbody, hlast, -⟩ := hrun.tryFinally_inv
  have hlast : ∃ answer : Except Raised Unit, last =
      sandbox.toList.map fun sandbox => (⟨.destroy sandbox, answer⟩ : ExecDone) := by
    cases sandbox with
    | some sandbox => exact ⟨ended, (Run.call_inv (e := ExecEffect.destroy sandbox) hlast).1⟩
    | none => exact ⟨.ok (), hlast.ret_inv.1⟩
  rcases Run.tryExcept_inv hbody with ⟨a, rfl, hinner⟩ | ⟨e, inner, handled, rfl, hinner, hhandler⟩
  · exact ⟨before, _, [], last, by simp, hinner, by simp, hlast⟩
  · refine ⟨inner, _, handled, last, rfl, hinner, fun s => ?_, hlast⟩
    cases e with
    | exception name text => exact hhandler.of_uses (untouched_onException sandbox name text)
    | interrupt =>
      obtain ⟨rfl, -⟩ := hhandler.raise_inv
      simp

/-- **An attempt destroys the first sandbox if it was started**, and the
second exactly if the candidate was applied. -/
theorem attempt_trace {imageId : Option String} {out : Except Raised AttemptOutcome}
    (hrun : Run Answered (attempt settings command imageId) trace out) :
    DestroyedIn .repair trace ∧ Exact trace := by
  obtain ⟨answer, rest, rfl, -, hrest⟩ := hrun.perform_inv
  have hfirst : ∀ x ∈ [(⟨.start .repair (imageId.filter (· ≠ "")), answer⟩ : ExecDone)],
      ¬ Touches .verification x.1 := by simp [Touches]
  cases answer with
  | error e =>
    obtain ⟨inner, result, handled, last, rfl, hbody, hhandled, answer, rfl⟩ := guarded_trace hrest
    obtain ⟨rfl, -⟩ := hbody.raise_inv
    simp only [Option.toList_none, List.map_nil, List.nil_append, List.append_nil]
    refine ⟨.of_not_started fun imageId hmem => ?_, ?_⟩
    · rcases List.mem_cons.mp hmem with hmem | hmem
      · exact absurd hmem (by simp)
      · exact hhandled .repair _ hmem rfl
    · exact (Exact.of_untouched (hhandled .verification)).append_left hfirst
  | ok a =>
    obtain ⟨inner, result, handled, last, rfl, hbody, hhandled, answer, rfl⟩ := guarded_trace hrest
    have hinner := hbody.of_uses (untouched_inSandbox imageId)
    refine ⟨?_, ?_⟩
    · rw [← List.cons_append]
      exact .of_destroyed (a := answer) (by simp) (by simp)
    · have hexact := (exact_inSandbox hbody).append_right (hhandled .verification)
      exact (hexact.append_right (by simp [Touches])).append_left hfirst

end RealExecutor

/-- **Every sandbox that was started is destroyed, exactly if applying the
candidate did not raise.** -/
theorem eachDestroyed_iff (settings : ExecutorSettings) (command : RunCommand)
    (trace : List ExecDone) (out : Except Raised AttemptOutcome)
    (hrun : Program.Run Answered (RealExecutor.execute settings command) trace out) :
    EachDestroyed trace ↔ CandidateApplied trace := by
  have hboth : DestroyedIn .repair trace ∧ Exact trace := by
    unfold RealExecutor.execute at hrun
    split at hrun
    · exact RealExecutor.attempt_trace hrun
    · rcases hrun.bind_inv with ⟨e, -, hprepare⟩ | ⟨imageId, before, after, rfl, hprepare, hrest⟩
      · have huntouched := fun s => hprepare.of_uses (RealExecutor.untouched_prepare (s := s))
        exact ⟨.of_not_started fun _ hmem => huntouched .repair _ hmem rfl,
          .of_untouched (huntouched .verification)⟩
      · have huntouched := fun s => hprepare.of_uses (RealExecutor.untouched_prepare (s := s))
        split at hrest
        · obtain ⟨rfl, -⟩ := hrest.ret_inv
          rw [List.append_nil]
          exact ⟨.of_not_started fun _ hmem => huntouched .repair _ hmem rfl,
            .of_untouched (huntouched .verification)⟩
        · obtain ⟨hrepair, hexact⟩ := RealExecutor.attempt_trace hrest
          exact ⟨(destroyedIn_append_left (huntouched .repair)).mpr hrepair,
            hexact.append_left (huntouched .verification)⟩
  constructor
  · intro h
    exact hboth.2.mp (h .verification)
  · intro h s
    cases s with
    | repair => exact hboth.1
    | verification => exact hboth.2.mpr h

/-! ## A candidate that conflicts -/

def plainSettings : ExecutorSettings where
  mockMode := false
  llmProvider := "openai"
  faultInject := ""
  sandboxTimeoutS := 300
  sha256 := id

def smallCommand : RunCommand := commandFromSnapshot smallSnapshot "/repo" 0 1 0 0 none

/-- The agent leaves a patch, and the checks pass; `git apply` of the
candidate does as is said. -/
def effectAnswers (applied : Except Raised Unit) : (effect : ExecEffect) → Except Raised effect.Answer
  | .phase _ _ => .ok { imageId := some "image", fingerprint := "fingerprint" }
  | .getImage imageId => .ok imageId
  | .prepareEnvironment _ => .ok { fingerprint := "fingerprint", imageId := "image", log := "" }
  | .runCheck _ _ _ => .ok (⟨1, "test_bug"⟩, none)
  | .getCheckpoint _ => .ok { appliedPatch := none, feedbackMode := none, lastFailure := none }
  | .currentDiff => .ok "diff"
  | .saveCheckpoint _ => .ok "checkpoint"
  | .readGoldPatch _ => .ok ""
  | .runAgent _ _ => .ok { usedTokens := 10, usedSeconds := 10 }
  | .applyCandidate _ => applied
  | .verify _ _ => .ok { passed := true, results := [], patch := "diff" }
  | .judge _ _ _ => .ok none
  | .pause _ _ => .ok ()
  | .environment _ => .ok ()
  | .start _ _ => .ok ()
  | .destroy _ => .ok ()
  | .saveEvidence _ _ => .ok ()
  | .restore _ => .ok ()
  | .emitSaved _ _ _ => .ok ()
  | .exit => .ok ()
  | .buildModel _ _ => .ok ()

/-- The attempt, and what it has done. -/
def smallAttempt (applied : Except Raised Unit) : List ExecDone × Except Raised AttemptOutcome :=
  (RealExecutor.execute plainSettings smallCommand).runWith (effectAnswers applied)

theorem run_smallAttempt {applied : Except Raised Unit}
    (h : ((smallAttempt applied).1.all fun done => !done.1.exits) = true) :
    Program.Run Answered (RealExecutor.execute plainSettings smallCommand) (smallAttempt applied).1
      (smallAttempt applied).2 := by
  refine Program.run_runWith _ fun done hdone => ?_
  have hnot := List.all_eq_true.mp h done hdone
  simpa [Answered] using hnot

/-- The candidate applies, and both sandboxes are destroyed. -/
theorem eachDestroyed_of_applied : EachDestroyed (smallAttempt (.ok ())).1 := by
  refine (eachDestroyed_iff plainSettings smallCommand _ _ (run_smallAttempt (by decide))).mpr ?_
  intro patch e hmem
  have hnone : ((smallAttempt (.ok ())).1.all fun done => match done with
      | ⟨.applyCandidate _, .error _⟩ => false
      | _ => true) = true := by decide
  exact absurd (List.all_eq_true.mp hnone _ hmem) (by simp)

/-- **The candidate does not apply, and its sandbox is left.** -/
theorem conflict_not_eachDestroyed :
    Program.Run Answered (RealExecutor.execute plainSettings smallCommand)
        (smallAttempt (.error (.exception "CalledProcessError" ""))).1
        (smallAttempt (.error (.exception "CalledProcessError" ""))).2 ∧
      ¬ EachDestroyed (smallAttempt (.error (.exception "CalledProcessError" ""))).1 := by
  refine ⟨run_smallAttempt (by decide), fun h => ?_⟩
  have hstarted : (⟨.start .verification (some "image"), .ok ()⟩ : ExecDone) ∈
      (smallAttempt (.error (.exception "CalledProcessError" ""))).1 :=
    List.mem_of_getElem? (i := 13) rfl
  obtain ⟨before, after, htrace⟩ := List.append_of_mem hstarted
  obtain ⟨answer, hmem⟩ := h .verification before _ after htrace
  have hleft : ((smallAttempt (.error (.exception "CalledProcessError" ""))).1.all fun done =>
      match done with
      | ⟨.destroy .verification, _⟩ => false
      | _ => true) = true := by decide
  refine absurd (List.all_eq_true.mp hleft ⟨.destroy .verification, answer⟩ ?_) (by simp)
  rw [htrace]
  exact List.mem_append_right _ (List.mem_cons_of_mem _ hmem)

end Runtime

end AgentReliability
