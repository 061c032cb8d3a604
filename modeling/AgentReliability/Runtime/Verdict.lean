import AgentReliability.Runtime.Gates
/-!
# What a verdict depends on

The patch that is captured decides what V1, V2 and V6 have to report. The
checks decide the rest, and they run on a whole work tree: for a snapshot
one that is made from the patch alone, for a fixture the agent's own, with
the files the patch leaves out.
-/

namespace AgentReliability

namespace Runtime

open PythonText

/-! ## The verification of an attempt -/

/-- The parts of a task snapshot the verification reads. -/
structure SnapshotChecks where
  baselineCommand : String
  protectedPaths : List String
  dependencyFiles : List String
  deriving DecidableEq, Repr

/-- The parts of a `RunCommand` the verification reads. -/
structure AttemptCommand where
  taskSpec : TaskSpec
  base : Commit
  snapshot : Option SnapshotChecks := none

/-- The paths that are protected in every snapshot. -/
def alwaysProtected : List String := ["pyproject.toml", "pytest.ini", "setup.cfg", "tox.ini",
  "conftest.py", "**/conftest.py", "requirements*.txt", "requirements*.lock",
  "**/requirements*.txt", "Pipfile*", "poetry.lock", "uv.lock", ".python-version", "Dockerfile*",
  "docker-compose*", ".github/workflows/**"]

namespace AttemptCommand

variable (git : GitCommands) (checks : Checks) (command : AttemptCommand)

/-- The pipeline of the attempt; the cases are those of the baseline check,
which was run before the agent. -/
def pipeline (baselineCases : Option TestCases) : VerifierPipeline :=
  match command.snapshot with
  | none => { spec := command.taskSpec, base := command.base }
  | some snapshot => {
      spec := command.taskSpec
      base := command.base
      protectedPaths := snapshot.protectedPaths ++ snapshot.dependencyFiles ++ alwaysProtected
      verifyContract := true
      baselineCases := match baselineCases with
        | some cases => [(snapshot.baselineCommand, cases)]
        | none => [] }

/-- The work tree that is verified. There is none if the candidate cannot be
captured or applied, and the attempt is paused. -/
def verificationCheckout (w : Checkout) : Option Checkout :=
  match command.snapshot with
  | none => some w
  | some _ =>
    match w.capturePatch git command.base with
    | .error _ => none
    | .ok (candidate, _) =>
      let fresh := command.base.checkout git
      if isBlank candidate then some fresh
      else (git.apply fresh.files candidate).map fun files => { fresh with files }

/-- The verification stage of `RealExecutor.execute`. -/
def verify (baselineCases : Option TestCases) (w : Checkout) : Option VerifyReport :=
  (command.verificationCheckout git w).bind ((command.pipeline baselineCases).run git checks)

/-- The verdict, the failure code and the patch that are reported. -/
def verdict (baselineCases : Option TestCases) (w : Checkout) :=
  (command.verify git checks baselineCases w).map VerifyReport.verdict

end AttemptCommand

/-- What `capture_patch` returns. -/
def Checkout.patch (git : GitCommands) (base : Commit) (w : Checkout) : Except String String :=
  (w.capturePatch git base).map Prod.fst

/-- A diff of text files determines what git stores of the files it was
taken of. -/
def Determines (git : GitCommands) : Prop :=
  ∀ (base t u : Tree) (patch : String), git.diff base t = some patch →
    git.diff base u = some patch → Checkout.isText patch → isBlank patch = false → t = u

/-! ## The gates before the checks -/

variable {git : GitCommands} {base : Commit} {w₁ w₂ : Checkout} {p : VerifierPipeline}

/-- The listing reads nothing but the files that are tracked. -/
theorem changedFiles_congr (h : w₁.trackedFiles git = w₂.trackedFiles git) :
    changedFiles git base w₁ = changedFiles git base w₂ := by
  unfold changedFiles GitCommands.nameOnly GitCommands.changedNames
  rw [h]

/-- **The patch decides V1, V2 and V6.** -/
theorem gates_congr (hgit : Determines git)
    (hpatch : w₁.patch git p.base = w₂.patch git p.base) : p.gates git w₁ = p.gates git w₂ := by
  unfold Checkout.patch at hpatch
  unfold VerifierPipeline.gates
  cases h₁ : w₁.capturePatch git p.base with
  | error text =>
    cases h₂ : w₂.capturePatch git p.base with
    | error text' =>
      rw [h₁, h₂] at hpatch
      obtain rfl := Except.error.inj hpatch
      rfl
    | ok captured =>
      rw [h₁, h₂] at hpatch
      exact absurd hpatch (by simp [Except.map])
  | ok captured =>
    cases h₂ : w₂.capturePatch git p.base with
    | error text =>
      rw [h₁, h₂] at hpatch
      exact absurd hpatch (by simp [Except.map])
    | ok captured' =>
      obtain ⟨patch, u₁⟩ := captured
      obtain ⟨patch', u₂⟩ := captured'
      rw [h₁, h₂] at hpatch
      obtain rfl : patch = patch' := Except.ok.inj hpatch
      by_cases hblank : isBlank patch
      · simp only [hblank, if_true]
      · obtain ⟨rfl, hdiff₁, htext⟩ := Checkout.capturePatch_ok h₁
        obtain ⟨rfl, hdiff₂, -⟩ := Checkout.capturePatch_ok h₂
        have hblank : isBlank patch = false := by simpa using hblank
        -- Both diffs are of the same files.
        have htracked : (w₁.captured git).trackedFiles git = (w₂.captured git).trackedFiles git :=
          hgit _ _ _ _ hdiff₁ hdiff₂ htext hblank
        have hchanged : changedFiles git p.base (w₁.captured git) =
            changedFiles git p.base (w₂.captured git) := changedFiles_congr htracked
        simp only [hchanged]

/-! ## The checks -/

namespace VerifierPipeline

/-- The check commands of a task. -/
def commands (p : VerifierPipeline) : List String :=
  p.spec.staticCheck ++ p.spec.failToPass ++ p.spec.passToPass

/-- The checks run on the same files, or there are none to run. -/
def SameChecked (git : GitCommands) (p : VerifierPipeline) (files₁ files₂ : Tree) : Prop :=
  p.checkedFiles git files₁ = p.checkedFiles git files₂ ∨
    (p.commands = [] ∧
      ((p.checkedFiles git files₁).isSome ↔ (p.checkedFiles git files₂).isSome))

open Classical in
/-- The checks that pass on one tree only, and leave the files alone. -/
noncomputable def onlyOn (t : Tree) : Checks where
  exec _ _ files := some (⟨if files = t then 0 else 1, ""⟩, files)
  runCheck _ _ files := some (⟨if files = t then 0 else 1, ""⟩, none, files)

/-- Of these checks a step passes on the one tree, and where it has no
command to run. -/
theorem runCommands_onlyOn (hcontract : p.verifyContract = false) (t files : Tree)
    (step : ControlPlane.VerifierStep) (code : ControlPlane.FailureCode)
    (commands rest : List String) (outputs : List CommandOutput) :
    ∃ result, p.runCommands (onlyOn t) step code commands rest outputs files =
      some (result, files) ∧ (result.passed ↔ files = t ∨ rest = []) := by
  induction rest generalizing outputs with
  | nil => exact ⟨_, rfl, by simp [StepResult.pass]⟩
  | cons command rest ih =>
    by_cases hfiles : files = t
    · obtain ⟨result, hrest, hpassed⟩ := ih (outputs ++ [⟨command, 0, outputTail ""⟩])
      have hcheck : p.check (onlyOn t) command files = some (⟨0, ""⟩, none, files) := by
        simp [check, onlyOn, hcontract, hfiles]
      have hfailure : p.commandFailure step code command ⟨0, ""⟩ none = none := by
        unfold commandFailure
        cases p.baselineCases.lookup command <;> simp [hcontract]
      refine ⟨result, ?_, ?_⟩
      · simp only [runCommands, hcheck, Option.bind_eq_bind, Option.bind_some, hfailure]
        exact hrest
      · rw [hpassed]
        exact ⟨fun _ => .inl hfiles, fun _ => .inl hfiles⟩
    · have hcheck : p.check (onlyOn t) command files = some (⟨1, ""⟩, none, files) := by
        simp [check, onlyOn, hcontract, hfiles]
      have hfailure : p.commandFailure step code command ⟨1, ""⟩ none =
          some (.fail step code (.failed ⟨command, 1, outputTail ""⟩)) := by
        unfold commandFailure
        cases p.baselineCases.lookup command <;> simp [hcontract]
      refine ⟨.fail step code (.failed ⟨command, 1, outputTail ""⟩), ?_, ?_⟩
      · simp only [runCommands, hcheck, Option.bind_eq_bind, Option.bind_some, hfailure]
        rfl
      · simp [StepResult.fail, hfiles]

variable {results : List StepResult} {patch : String} {files : Tree}

/-- So the run passes on that tree, or if there is no command at all. -/
theorem runChecks_onlyOn (hcontract : p.verifyContract = false) (results : List StepResult)
    (patch : String) (t : Tree) {checked : Tree} (hchecked : p.checkedFiles git files = some checked) :
    ∃ report, p.runChecks git (onlyOn t) results patch files = some report ∧
      (report.passed ↔ checked = t ∨ p.commands = []) := by
  have hstep := runCommands_onlyOn hcontract t checked
  obtain ⟨v3, h3, hpassed3⟩ := hstep .v3 .verifyStaticFailed p.spec.staticCheck p.spec.staticCheck []
  obtain ⟨v4, h4, hpassed4⟩ := hstep .v4 .verifyTargetTestsFailed p.spec.failToPass
    p.spec.failToPass []
  obtain ⟨v5, h5, hpassed5⟩ := hstep .v5 .verifyRegressionFailed p.spec.passToPass
    p.spec.passToPass []
  have hall : checked = t ∨ p.commands = [] ↔ v3.passed ∧ v4.passed ∧ v5.passed := by
    rw [hpassed3, hpassed4, hpassed5]
    unfold commands
    rw [List.append_eq_nil_iff, List.append_eq_nil_iff, or_and_left, or_and_left, and_assoc]
  rw [hall]
  simp only [runChecks, hchecked, h3, h4, h5, Option.bind_eq_bind, Option.bind_some]
  by_cases hv3 : v3.passed
  · by_cases hv4 : v4.passed
    · exact ⟨_, by simp [hv3, hv4]; rfl, by simp [hv3, hv4]⟩
    · exact ⟨_, by simp [hv3, hv4]; rfl, by simp [hv4]⟩
  · exact ⟨_, by simp [hv3]; rfl, by simp [hv3]⟩

theorem passes_onlyOn_iff (hcontract : p.verifyContract = false) (results : List StepResult)
    (patch : String) (t : Tree) :
    (p.runChecks git (onlyOn t) results patch files).map (·.passed) = some true ↔
      ∃ checked, p.checkedFiles git files = some checked ∧ (checked = t ∨ p.commands = []) := by
  cases hchecked : p.checkedFiles git files with
  | none =>
    -- A test patch that cannot be applied fails the run.
    simp only [runChecks, hchecked]
    simp
  | some checked =>
    obtain ⟨report, hreport, hpassed⟩ := runChecks_onlyOn hcontract results patch t hchecked
    rw [hreport, Option.map_some, Option.some.injEq, hpassed]
    simp

/-- Without a command the checks only need the test patch to apply. -/
theorem runChecks_of_no_commands (checks : Checks) (hnone : p.commands = [])
    (h : (p.checkedFiles git files).isSome) :
    p.runChecks git checks results patch files = some ⟨true, results ++ [.pass .v3 (.commands [] []),
      .pass .v4 (.commands [] []), .pass .v5 (.commands [] [])], patch⟩ := by
  obtain ⟨checked, hchecked⟩ := Option.isSome_iff_exists.mp h
  unfold commands at hnone
  obtain ⟨⟨hv3, hv4⟩, hv5⟩ := (List.append_eq_nil_iff.trans
    (and_congr_left' List.append_eq_nil_iff)).mp hnone
  simp only [runChecks, hchecked, hv3, hv4, hv5, runCommands, Option.bind_eq_bind, Option.bind_some]
  rfl

/-- **The checks see the whole work tree.** Whatever the commands do, two
work trees have the same verdict exactly when the checks run on the same
files. -/
theorem runChecks_iff (hcontract : p.verifyContract = false) {files₁ files₂ : Tree} :
    (∀ checks, (p.runChecks git checks results patch files₁).map VerifyReport.verdict =
        (p.runChecks git checks results patch files₂).map VerifyReport.verdict) ↔
      SameChecked git p files₁ files₂ := by
  constructor
  · intro h
    have hpassed : ∀ checks, (p.runChecks git checks results patch files₁).map (·.passed) =
        (p.runChecks git checks results patch files₂).map (·.passed) := by
      intro checks
      have hfst := congrArg (Option.map Prod.fst) (h checks)
      rwa [Option.map_map, Option.map_map] at hfst
    cases h₁ : p.checkedFiles git files₁ with
    | some t =>
      have hpasses := (passes_onlyOn_iff hcontract results patch t).mpr ⟨t, h₁, .inl rfl⟩
      rw [hpassed] at hpasses
      obtain ⟨checked, h₂, rfl | hnone⟩ := (passes_onlyOn_iff hcontract results patch t).mp hpasses
      · exact .inl (h₁.trans h₂.symm)
      · refine .inr ⟨hnone, ?_⟩
        rw [h₁, h₂]
        exact ⟨fun _ => rfl, fun _ => rfl⟩
    | none =>
      cases h₂ : p.checkedFiles git files₂ with
      | none => exact .inl (h₁.trans h₂.symm)
      | some t =>
        have hpasses := (passes_onlyOn_iff hcontract results patch t).mpr ⟨t, h₂, .inl rfl⟩
        rw [← hpassed] at hpasses
        obtain ⟨checked, hsome, -⟩ := (passes_onlyOn_iff hcontract results patch t).mp hpasses
        exact absurd (h₁.symm.trans hsome) (by simp)
  · rintro (hsame | ⟨hnone, hsome⟩) checks
    · simp only [runChecks, hsame]
    · by_cases h₁ : (p.checkedFiles git files₁).isSome
      · rw [runChecks_of_no_commands checks hnone h₁,
          runChecks_of_no_commands checks hnone (hsome.mp h₁)]
      · have h₂ : ¬ (p.checkedFiles git files₂).isSome := fun h => h₁ (hsome.mpr h)
        rw [Option.not_isSome_iff_eq_none] at h₁ h₂
        simp only [runChecks, h₁, h₂]

end VerifierPipeline

/-! ## The result -/

/-- **What a verdict depends on.** Of two work trees whose captured patches
are the same, a snapshot has one verdict. A fixture has one report of V1, V2
and V6, and one verdict, whatever the checks do, exactly if one of these
gates fails or the checks run on the same files. -/
theorem verdict_of_patch {command : AttemptCommand} {cases : Option TestCases}
    (hgit : Determines git) (hpatch : w₁.patch git command.base = w₂.patch git command.base) :
    (command.snapshot.isSome → ∀ checks,
      command.verdict git checks cases w₁ = command.verdict git checks cases w₂) ∧
    (command.snapshot = none →
      (command.pipeline cases).gates git w₁ = (command.pipeline cases).gates git w₂ ∧
      ((∀ checks, command.verdict git checks cases w₁ = command.verdict git checks cases w₂) ↔
        (∃ report, (command.pipeline cases).gates git w₁ = .error report) ∨
          (command.pipeline cases).SameChecked git w₁.files w₂.files)) := by
  constructor
  · intro hsnapshot checks
    obtain ⟨snapshot, hsnapshot⟩ := Option.isSome_iff_exists.mp hsnapshot
    -- The fresh checkout is made of the base and the patch alone.
    have hcheckout : command.verificationCheckout git w₁ = command.verificationCheckout git w₂ := by
      unfold AttemptCommand.verificationCheckout
      rw [hsnapshot]
      unfold Checkout.patch at hpatch
      cases h₁ : w₁.capturePatch git command.base with
      | error text =>
        cases h₂ : w₂.capturePatch git command.base with
        | error text' => rfl
        | ok captured =>
          rw [h₁, h₂] at hpatch
          exact absurd hpatch (by simp [Except.map])
      | ok captured =>
        cases h₂ : w₂.capturePatch git command.base with
        | error text =>
          rw [h₁, h₂] at hpatch
          exact absurd hpatch (by simp [Except.map])
        | ok captured' =>
          rw [h₁, h₂] at hpatch
          have heq : captured.1 = captured'.1 := Except.ok.inj hpatch
          simp only [heq]
    unfold AttemptCommand.verdict AttemptCommand.verify
    rw [hcheckout]
  · intro hsnapshot
    have hpipeline : command.pipeline cases = { spec := command.taskSpec, base := command.base } := by
      unfold AttemptCommand.pipeline
      rw [hsnapshot]
    have hcontract : (command.pipeline cases).verifyContract = false := by rw [hpipeline]
    have hbase : (command.pipeline cases).base = command.base := by rw [hpipeline]
    have hgates : (command.pipeline cases).gates git w₁ = (command.pipeline cases).gates git w₂ :=
      gates_congr hgit (by rw [hbase]; exact hpatch)
    have hverdict : ∀ checks w, command.verdict git checks cases w =
        ((command.pipeline cases).run git checks w).map VerifyReport.verdict := by
      intro checks w
      unfold AttemptCommand.verdict AttemptCommand.verify AttemptCommand.verificationCheckout
      rw [hsnapshot]
      rfl
    refine ⟨hgates, ?_⟩
    simp only [hverdict, VerifierPipeline.run]
    cases h : (command.pipeline cases).gates git w₁ with
    | error report =>
      rw [← hgates, h]
      exact ⟨fun _ => .inl ⟨report, rfl⟩, fun _ _ => rfl⟩
    | ok passed =>
      rw [← hgates, h]
      simp only [reduceCtorEq, exists_false, false_or]
      exact VerifierPipeline.runChecks_iff hcontract

/-! ### A file the patch leaves out -/

/-- The edit of `editedFile`, and a module the agent has left in a
cache. -/
def editedWithModule : Checkout where
  head := "base"
  files := {
    paths := ["node_modules/x.js", "src/main.py"]
    blob := fun path => if path = "node_modules/x.js" then some ⟨.regular, []⟩
      else if path = "src/main.py" then some ⟨.regular, [98]⟩ else none
    sorted := by decide
    mem_paths := fun path => by
      by_cases h : path = "node_modules/x.js" <;> by_cases h' : path = "src/main.py" <;> simp [h, h'] }
  tracked := ["src/main.py"]

def IsEdit (base t : Tree) : Prop :=
  base.paths = ["src/main.py"] ∧ base.blob "src/main.py" = some ⟨.regular, [97]⟩ ∧
    t.paths = ["src/main.py"] ∧ t.blob "src/main.py" = some ⟨.regular, [98]⟩

instance (base t : Tree) : Decidable (IsEdit base t) := by unfold IsEdit; infer_instance

/-- A git that knows one edit. -/
def editGit : GitCommands :=
  { plainGit editPatch with
    diff := fun base t => if IsEdit base t then some editPatch else none
    apply := fun _ _ => some (oneFile "src/main.py" [98]) }

theorem eq_of_isEdit {base t : Tree} (h : IsEdit base t) : t = oneFile "src/main.py" [98] := by
  obtain ⟨-, -, hpaths, hblob⟩ := h
  refine Tree.ext_blob fun path => ?_
  by_cases hpath : path = "src/main.py"
  · rw [hpath, hblob]
    rfl
  · have hnone : t.blob path = none := by
      by_contra hsome
      have hmem := (t.mem_paths path).mpr hsome
      rw [hpaths, List.mem_singleton] at hmem
      exact hpath hmem
    rw [hnone]
    exact (if_neg hpath).symm

theorem determines_editGit : Determines editGit := by
  intro base t u patch ht hu _ _
  have hedit {v : Tree} (h : editGit.diff base v = some patch) : IsEdit base v := by
    by_contra hnot
    exact absurd (h.symm.trans (if_neg hnot)) (by simp)
  rw [eq_of_isEdit (hedit ht), eq_of_isEdit (hedit hu)]

def fixtureAttempt : AttemptCommand where
  taskSpec := { workdir := ".", allowedPaths := ["src/**"], failToPass := ["npm test"] }
  base := ⟨"base", oneFile "src/main.py" [97]⟩

/-- A test that passes if the module is there. -/
def moduleChecks : Checks where
  exec _ _ files := some (⟨if files.blob "node_modules/x.js" = none then 1 else 0, ""⟩, files)
  runCheck _ _ files := some (⟨0, ""⟩, none, files)

set_option maxRecDepth 20000 in
/-- The same patch fails, and passes with the file it leaves out. -/
theorem left_out_file_decides :
    editedFile.patch editGit fixtureAttempt.base = editedWithModule.patch editGit fixtureAttempt.base ∧
      fixtureAttempt.verdict editGit moduleChecks none editedFile =
        some (false, some .verifyTargetTestsFailed, editPatch) ∧
      fixtureAttempt.verdict editGit moduleChecks none editedWithModule =
        some (true, none, editPatch) := by
  exact ⟨by rfl, by rfl, by rfl⟩

def snapshotAttempt : AttemptCommand :=
  { fixtureAttempt with snapshot := some ⟨"npm test", [], []⟩ }

set_option maxRecDepth 20000 in
theorem left_out_file_ignored :
    snapshotAttempt.verdict editGit moduleChecks none editedFile =
      snapshotAttempt.verdict editGit moduleChecks none editedWithModule :=
  (verdict_of_patch determines_editGit rfl).1 rfl moduleChecks

end Runtime

end AgentReliability
