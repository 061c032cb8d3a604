import AgentReliability.Runtime.Coverage
/-!
# Whether a pass has run any test

`_run_commands` refuses a command of pytest that fails, one whose report is
missing or empty, and one whose report does not cover the tests of its
baseline. Only the command of the baseline has one. A report in which every
test is skipped is not empty, so for any other command it is enough.
-/

namespace AgentReliability

namespace Runtime

open PythonText

open ControlPlane (FailureCode VerifierStep)

section

variable (fromstring : String → Option XmlElement) {σ : Type} (ws : SandboxHost σ)
  (git : GitCommands) (p : VerifierPipeline)

/-- The checks of V4 and V5. -/
def VerifierPipeline.testsIn (s : σ) : Option (List CheckRun) := do
  let s ← p.withTestPatch ws s
  let (_, _, s) ← p.runCommandsIn fromstring ws .v3 .verifyStaticFailed p.spec.staticCheck
    p.spec.staticCheck [] [] s
  let (_, targets, s) ← p.runCommandsIn fromstring ws .v4 .verifyTargetTestsFailed p.spec.failToPass
    p.spec.failToPass [] [] s
  let (_, regressions, _) ← p.runCommandsIn fromstring ws .v5 .verifyRegressionFailed
    p.spec.passToPass p.spec.passToPass [] [] s
  some (targets ++ regressions)

/-- The commands of V4 and V5. -/
def VerifierPipeline.testCommands : List String := p.spec.failToPass ++ p.spec.passToPass

/-- A test of the check has passed. -/
def CheckRun.HasPassed (run : CheckRun) : Prop := ∃ case ∈ run.cases.getD [], case.2 = "passed"

/-- **The commands were run, and each one of pytest has a test that
passed.** -/
structure TestsRun (runs : List CheckRun) : Prop where
  commands : runs.map (·.command) = p.testCommands
  passed : ∀ run ∈ runs, isPytest run.command → run.HasPassed

/-- **No pass is vacuous**, whatever the commands exit with and report. -/
def NoVacuousPass (w : Checkout) : Prop :=
  ∀ (σ : Type) (ws : SandboxHost σ) (s : σ) (report : VerifyReport) (targets : List CheckRun),
    ws.checkout s = w → p.runIn fromstring ws git s = some (report, targets) → report.passed →
      ∃ runs, p.testsIn fromstring ws s = some runs ∧ TestsRun p runs

/-- Every command of pytest is compared with a baseline. -/
def Compared : Prop :=
  ∀ command ∈ p.testCommands, isPytest command → (p.baselineCases.lookup command).isSome

/-- Nothing but the commands can refuse the patch: the gates do not, and a
baseline can be covered. -/
def Passable (w : Checkout) : Prop :=
  (∃ ok, p.gates git w = .ok ok) ∧
    ∀ command ∈ p.commands, ∀ before, p.baselineCases.lookup command = some before →
      isPytest command ∧ ∃ case ∈ before, case.2 ≠ "skipped"

/-- **The reports that can be read**: one in which no test passed, and for
each baseline one that covers it. -/
structure ReadsReports : Prop where
  skipped : ∃ xml cases, parseCases fromstring xml = .ok cases ∧ cases ≠ [] ∧
    ∀ case ∈ cases, case.2 ≠ "passed"
  covering : ∀ command before, p.baselineCases.lookup command = some before →
    (∃ case ∈ before, case.2 ≠ "skipped") →
      ∃ xml cases, parseCases fromstring xml = .ok cases ∧ coveragePreserved before cases = true

end

section

variable {fromstring : String → Option XmlElement} {σ : Type} {ws : SandboxHost σ}
  {git : GitCommands} {p : VerifierPipeline} {s s' : σ}

/-! ## A pass with a baseline for every command -/

/-- The check of a command is of that command. -/
theorem command_of_checkIn {command : String} {run : CheckRun}
    (h : p.checkIn fromstring ws command s = some (run, s')) : run.command = command := by
  unfold VerifierPipeline.checkIn at h
  split at h
  · by_cases hpytest : isPytest command
    · exact (runCheck_pytest hpytest h).1
    · simp only [runCheck, hpytest, Bool.false_eq_true, not_false_eq_true, if_true,
        Option.bind_eq_bind, Option.bind_eq_some_iff] at h
      obtain ⟨⟨result, s₁⟩, -, h⟩ := h
      obtain ⟨rfl, -⟩ := Prod.mk.inj (Option.some.inj h)
      rfl
  · obtain ⟨⟨result, s₁⟩, -, h⟩ := Option.map_eq_some_iff.mp h
    obtain ⟨rfl, -⟩ := Prod.mk.inj h
    rfl

theorem coveragePreserved_nil (before : TestCases) : coveragePreserved before [] = false := by
  by_contra h
  obtain ⟨⟨case, hcase, hrun⟩, hall⟩ := coveragePreserved_eq_true (Bool.of_not_eq_false h)
  exact absurd (hall case hcase hrun) (by simp)

/-- A command with a baseline that does not fail its step has a test that
passed. -/
theorem hasPassed_of_baseline {step : VerifierStep} {code : FailureCode} {run : CheckRun}
    {before : TestCases} (hcontract : p.verifyContract = true)
    (hbefore : p.baselineCases.lookup run.command = some before)
    (h : p.commandFailure step code run.command run.result run.cases = none) :
    run.HasPassed ∧ ∃ case ∈ before, case.2 ≠ "skipped" := by
  obtain ⟨-, hcovered⟩ := coverage_of_commandFailure hcontract hbefore h
  obtain ⟨⟨case, hcase, hrun⟩, hall⟩ := coveragePreserved_eq_true hcovered
  have hpassed := hall case hcase hrun
  refine ⟨⟨(case.1, "passed"), ?_, rfl⟩, case, hcase, hrun⟩
  obtain ⟨before', after', hcases, -⟩ := List.lookup_eq_some_iff.mp hpassed
  rw [hcases]
  exact List.mem_append_right _ List.mem_cons_self

/-- A command without a report has no baseline it could cover. -/
theorem isPytest_of_baseline {step : VerifierStep} {code : FailureCode} {command : String}
    {run : CheckRun} {before : TestCases} (hcontract : p.verifyContract = true)
    (hcheck : p.checkIn fromstring ws command s = some (run, s'))
    (hbefore : p.baselineCases.lookup command = some before)
    (h : p.commandFailure step code command run.result run.cases = none) : isPytest command := by
  by_contra hpytest
  have hcases : run.cases = none := by
    unfold VerifierPipeline.checkIn at hcheck
    simp only [hcontract, if_true, runCheck, hpytest, not_false_eq_true,
      Option.bind_eq_bind, Option.bind_eq_some_iff] at hcheck
    obtain ⟨⟨result, s₁⟩, -, hcheck⟩ := hcheck
    obtain ⟨rfl, -⟩ := Prod.mk.inj (Option.some.inj hcheck)
    rfl
  obtain ⟨-, hcovered⟩ := coverage_of_commandFailure hcontract hbefore h
  rw [hcases, Option.getD_none, coveragePreserved_nil] at hcovered
  exact absurd hcovered (by simp)

/-- The checks of a step that passed: those of its commands, and what a
baseline says of them. -/
theorem step_passed {step : VerifierStep} {code : FailureCode} {commands : List String}
    {made : List CheckRun} (hcontract : p.verifyContract = true)
    (h : List.Forall₂ (fun command run =>
      (∃ s₁ s₂, p.checkIn fromstring ws command s₁ = some (run, s₂)) ∧
        p.commandFailure step code command run.result run.cases = none) commands made) :
    made.map (·.command) = commands ∧
      (∀ command ∈ commands, ∀ before, p.baselineCases.lookup command = some before →
        isPytest command ∧ ∃ case ∈ before, case.2 ≠ "skipped") ∧
      ∀ run ∈ made, (∃ s₁ s₂, p.checkIn fromstring ws run.command s₁ = some (run, s₂)) ∧
        ((p.baselineCases.lookup run.command).isSome → run.HasPassed) := by
  induction h with
  | nil => simp
  | @cons command run commands made hrun _ ih =>
    obtain ⟨⟨s₁, s₂, hcheck⟩, hnone⟩ := hrun
    obtain ⟨hcommands, hbaselines, hall⟩ := ih
    have hname := command_of_checkIn hcheck
    refine ⟨by rw [List.map_cons, hcommands, hname], ?_, ?_⟩
    · rw [List.forall_mem_cons]
      refine ⟨fun before hbefore => ⟨isPytest_of_baseline hcontract hcheck hbefore hnone, ?_⟩,
        hbaselines⟩
      rw [← hname] at hbefore hnone
      exact (hasPassed_of_baseline hcontract hbefore hnone).2
    · rw [List.forall_mem_cons]
      rw [← hname] at hcheck hnone
      refine ⟨⟨⟨s₁, s₂, hcheck⟩, fun hsome => ?_⟩, hall⟩
      obtain ⟨before, hbefore⟩ := Option.isSome_iff_exists.mp hsome
      exact (hasPassed_of_baseline hcontract hbefore hnone).1

/-- **What a pass has shown**: a test of every command that is compared. -/
theorem tests_of_pass (hcontract : p.verifyContract = true) {report : VerifyReport}
    {targets : List CheckRun} (h : p.runIn fromstring ws git s = some (report, targets))
    (hpassed : report.passed) :
    Passable git p (ws.checkout s) ∧
      ∃ runs, p.testsIn fromstring ws s = some runs ∧ runs.map (·.command) = p.testCommands ∧
        (∀ run ∈ runs, ∃ s₁ s₂, p.checkIn fromstring ws run.command s₁ = some (run, s₂)) ∧
        (Compared p → ∀ run ∈ runs, isPytest run.command → run.HasPassed) := by
  obtain ⟨hgates, v3, v4, v5, runs3, runs5, s₁, s₂, s₃, s₄, hpatch, h3, hv3, h4, hv4, h5, hv5⟩ :=
    runIn_passed h hpassed
  obtain ⟨made3, -, hall3⟩ := runCommandsIn_passed h3 hv3
  obtain ⟨made4, hmade4, hall4⟩ := runCommandsIn_passed h4 hv4
  obtain ⟨made5, hmade5, hall5⟩ := runCommandsIn_passed h5 hv5
  obtain ⟨-, hbase3, -⟩ := step_passed hcontract hall3
  obtain ⟨hnames4, hbase4, hpass4⟩ := step_passed hcontract hall4
  obtain ⟨hnames5, hbase5, hpass5⟩ := step_passed hcontract hall5
  rw [List.nil_append] at hmade4 hmade5
  refine ⟨⟨hgates, fun command hcommand => ?_⟩, targets ++ runs5, ?_, ?_, fun run hrun => ?_,
    fun hcompared run hrun hpytest => ?_⟩
  · unfold VerifierPipeline.commands at hcommand
    rw [List.append_assoc, List.mem_append, List.mem_append] at hcommand
    rcases hcommand with hcommand | hcommand | hcommand
    · exact hbase3 command hcommand
    · exact hbase4 command hcommand
    · exact hbase5 command hcommand
  · simp only [VerifierPipeline.testsIn, hpatch, h3, h4, h5, Option.bind_eq_bind, Option.bind_some]
  · rw [List.map_append, hmade4, hmade5, hnames4, hnames5]
    rfl
  · rcases List.mem_append.mp hrun with hrun | hrun
    · exact (hpass4 run (hmade4 ▸ hrun)).1
    · exact (hpass5 run (hmade5 ▸ hrun)).1
  · have hmem : run.command ∈ p.testCommands := by
      have hmem := List.mem_map_of_mem (f := CheckRun.command) hrun
      rw [List.map_append, hmade4, hmade5, hnames4, hnames5] at hmem
      exact hmem
    have hsome := hcompared run.command hmem hpytest
    rcases List.mem_append.mp hrun with hrun | hrun
    · exact (hpass4 run (hmade4 ▸ hrun)).2 hsome
    · exact (hpass5 run (hmade5 ▸ hrun)).2 hsome

/-! ## A pass without one -/

/-- What is put before a command of pytest. -/
def checkOptions : String :=
  "export PYTEST_ADDOPTS=\"$\x7bPYTEST_ADDOPTS:-\x7d --junitxml=" ++
    ("/tmp/arp-check-" ++ "0" ++ ".xml") ++ "\"; "

/-- A workspace where every command exits with 0 and leaves the report it is
said to; its state is the last one. -/
def reportingHost (w : Checkout) (reportOf : String → String) : SandboxHost String where
  exec text _ last := some (⟨0, last, ""⟩,
    reportOf (String.ofList (text.toList.drop checkOptions.toList.length)))
  uuid4 _ := "0"
  checkout _ := w
  apply _ last := some last

theorem runCheck_reportingHost (w : Checkout) {reportOf : String → String} {command : String}
    (cwd last : String) {cases : TestCases} (hpytest : isPytest command)
    (hparse : parseCases fromstring (reportOf command) = .ok cases) :
    ∃ last', runCheck fromstring (reportingHost w reportOf) command cwd last =
      some (⟨command, ⟨0, last⟩, some (reportOf command), some cases⟩, last') := by
  have hcommand : String.ofList (("export PYTEST_ADDOPTS=\"$\x7bPYTEST_ADDOPTS:-\x7d --junitxml=" ++
      ("/tmp/arp-check-" ++ (reportingHost w reportOf).uuid4 last ++ ".xml") ++ "\"; " ++
        command).toList.drop checkOptions.toList.length) = command := by
    show String.ofList ((checkOptions ++ command).toList.drop checkOptions.toList.length) = command
    rw [String.toList_append, List.drop_left, String.ofList_toList]
  have hexec : ∀ text last, (reportingHost w reportOf).exec text cwd last = some (⟨0, last, ""⟩,
      reportOf (String.ofList (text.toList.drop checkOptions.toList.length))) := fun _ _ => rfl
  simp only [runCheck, hpytest, not_true_eq_false, if_false, Option.bind_eq_bind, hexec,
    Option.bind_some]
  rw [if_neg (by simp), hcommand, hparse]
  exact ⟨_, rfl⟩

/-- A step passes if none of its commands fails it. -/
theorem runCommandsIn_of_passing (step : VerifierStep) (code : FailureCode)
    (commands : List String) {rest : List String} (h : ∀ command ∈ rest, ∀ s : σ, ∃ run s',
      p.checkIn fromstring ws command s = some (run, s') ∧
        p.commandFailure step code command run.result run.cases = none)
    (outputs : List CommandOutput) (runs : List CheckRun) (s : σ) :
    ∃ r runs' s', p.runCommandsIn fromstring ws step code commands rest outputs runs s =
      some (r, runs', s') ∧ r.passed := by
  induction rest generalizing outputs runs s with
  | nil => exact ⟨_, _, _, rfl, rfl⟩
  | cons command rest ih =>
    obtain ⟨run, s', hcheck, hnone⟩ := h command List.mem_cons_self s
    simp only [VerifierPipeline.runCommandsIn, hcheck, hnone, Option.bind_eq_bind, Option.bind_some]
    exact ih (fun command hcommand => h command (List.mem_cons_of_mem _ hcommand)) _ _ _

/-- A command that exits with 0 does not fail its step, if its report has
cases and covers its baseline. -/
theorem commandFailure_eq_none {step : VerifierStep} {code : FailureCode} {command output : String}
    {cases : Option TestCases} (hcases : cases ≠ some [])
    (hcovers : ∀ before, p.baselineCases.lookup command = some before →
      coveragePreserved before (cases.getD []) = true) :
    p.commandFailure step code command ⟨0, output⟩ cases = none := by
  unfold VerifierPipeline.commandFailure
  cases hlookup : p.baselineCases.lookup command with
  | none => simp [hcases]
  | some before => simp [hcases, hcovers before hlookup]

/-- A report for every command: it covers the baseline, if there is one, and
has no test that passed otherwise. -/
theorem exists_reports (hreads : ReadsReports fromstring p) (hpassable : ∀ command ∈ p.commands,
      ∀ before, p.baselineCases.lookup command = some before →
        isPytest command ∧ ∃ case ∈ before, case.2 ≠ "skipped") :
    ∃ reportOf : String → String, ∀ command ∈ p.commands, ∃ cases,
      parseCases fromstring (reportOf command) = .ok cases ∧ cases ≠ [] ∧
      (∀ before, p.baselineCases.lookup command = some before →
        coveragePreserved before cases = true) ∧
      (p.baselineCases.lookup command = none → ∀ case ∈ cases, case.2 ≠ "passed") := by
  have hone : ∀ command, ∃ xml, command ∈ p.commands → ∃ cases,
      parseCases fromstring xml = .ok cases ∧ cases ≠ [] ∧
      (∀ before, p.baselineCases.lookup command = some before →
        coveragePreserved before cases = true) ∧
      (p.baselineCases.lookup command = none → ∀ case ∈ cases, case.2 ≠ "passed") := by
    intro command
    cases hlookup : p.baselineCases.lookup command with
    | none =>
      obtain ⟨xml, cases, hparse, hne, hskipped⟩ := hreads.skipped
      exact ⟨xml, fun _ => ⟨cases, hparse, hne, by simp, fun _ => hskipped⟩⟩
    | some before =>
      by_cases hcommand : command ∈ p.commands
      · obtain ⟨xml, cases, hparse, hcovers⟩ := hreads.covering command before hlookup
          (hpassable command hcommand before hlookup).2
        refine ⟨xml, fun _ => ⟨cases, hparse, ?_, ?_, by simp⟩⟩
        · rintro rfl
          rw [coveragePreserved_nil] at hcovers
          exact absurd hcovers (by simp)
        · intro before' hbefore'
          rw [← Option.some.inj hbefore']
          exact hcovers
      · exact ⟨"", fun h => absurd h hcommand⟩
  choose reportOf hall using hone
  exact ⟨reportOf, hall⟩

/-- **Where a command of pytest is not compared, a pass may be vacuous**:
there are reports that pass the run, in which no test of it passed. -/
theorem exists_vacuous (hcontract : p.verifyContract = true) (hreads : ReadsReports fromstring p)
    {w : Checkout} (hpassable : Passable git p w) (command : String)
    (hcommand : command ∈ p.testCommands) (hpytest : isPytest command)
    (hlookup : p.baselineCases.lookup command = none) : ¬ NoVacuousPass fromstring git p w := by
  obtain ⟨⟨⟨results, patch⟩, hgates⟩, hbaselines⟩ := hpassable
  obtain ⟨reportOf, hreports⟩ := exists_reports hreads hbaselines
  have hpassing : ∀ {step code} (commands : List String), (∀ command ∈ commands, command ∈ p.commands) →
      ∀ command ∈ commands, ∀ last, ∃ run last',
        p.checkIn fromstring (reportingHost w reportOf) command last = some (run, last') ∧
          p.commandFailure step code command run.result run.cases = none := by
    intro step code commands hcommands command hcommand last
    have hmem := hcommands command hcommand
    by_cases hpytest : isPytest command
    · obtain ⟨cases, hparse, hne, hcovers, -⟩ := hreports command hmem
      obtain ⟨last', hcheck⟩ := runCheck_reportingHost w p.cwd last hpytest hparse
      refine ⟨_, last', by rw [VerifierPipeline.checkIn, if_pos hcontract, hcheck], ?_⟩
      exact commandFailure_eq_none (by simpa using hne) hcovers
    · refine ⟨⟨command, ⟨0, last⟩, none, none⟩,
        reportOf (String.ofList (command.toList.drop checkOptions.toList.length)), ?_,
        commandFailure_eq_none (by simp) fun before hbefore => ?_⟩
      · rw [VerifierPipeline.checkIn, if_pos hcontract, runCheck, if_pos hpytest]
        rfl
      · exact absurd (hbaselines command hmem before hbefore).1 hpytest
  -- Every step passes, and so does the run.
  have hstatic : ∀ command ∈ p.spec.staticCheck, command ∈ p.commands := by
    intro command hcommand
    exact List.mem_append_left _ (List.mem_append_left _ hcommand)
  have htargets : ∀ command ∈ p.spec.failToPass, command ∈ p.commands := by
    intro command hcommand
    exact List.mem_append_left _ (List.mem_append_right _ hcommand)
  have hregressions : ∀ command ∈ p.spec.passToPass, command ∈ p.commands := by
    intro command hcommand
    exact List.mem_append_right _ hcommand
  have hpatch : p.withTestPatch (reportingHost w reportOf) "" = some "" := by
    unfold VerifierPipeline.withTestPatch
    split
    · split <;> rfl
    · rfl
  obtain ⟨v3, runs3, s₂, h3, hv3⟩ := runCommandsIn_of_passing .v3 .verifyStaticFailed
    p.spec.staticCheck (hpassing _ hstatic) [] [] ""
  obtain ⟨v4, runs4, s₃, h4, hv4⟩ := runCommandsIn_of_passing .v4 .verifyTargetTestsFailed
    p.spec.failToPass (hpassing _ htargets) [] [] s₂
  obtain ⟨v5, runs5, s₄, h5, hv5⟩ := runCommandsIn_of_passing .v5 .verifyRegressionFailed
    p.spec.passToPass (hpassing _ hregressions) []
    [] s₃
  have hrun : p.runIn fromstring (reportingHost w reportOf) git "" =
      some (⟨v5.passed, results ++ [v3, v4, v5], patch⟩, runs4) := by
    have hgates : p.gates git ((reportingHost w reportOf).checkout "") = .ok (results, patch) := hgates
    simp only [VerifierPipeline.runIn, hgates, VerifierPipeline.runChecksIn, hpatch, h3, h4, h5,
      Option.bind_eq_bind, Option.bind_some, hv3, hv4, not_true_eq_false, if_false]
    rfl
  intro hall
  obtain ⟨runs, hruns, htests⟩ := hall String (reportingHost w reportOf) "" _ _ rfl hrun hv5
  obtain ⟨-, runs', hruns', -, hchecked, -⟩ := tests_of_pass hcontract hrun hv5
  obtain rfl := Option.some.inj (hruns.symm.trans hruns')
  have hmem : command ∈ p.commands := by
    rcases List.mem_append.mp hcommand with h | h
    · exact htargets command h
    · exact hregressions command h
  obtain ⟨cases, hparse, -, -, hnone⟩ := hreports command hmem
  rw [← htests.commands] at hcommand
  obtain ⟨run, hrunmem, rfl⟩ := List.mem_map.mp hcommand
  obtain ⟨case, hcase, hpassed⟩ := htests.passed run hrunmem hpytest
  -- Its report is the one in which no test passed.
  obtain ⟨s₁, s₂', hcheck⟩ := hchecked run hrunmem
  obtain ⟨last, hcheck'⟩ := runCheck_reportingHost w p.cwd s₁ hpytest
    hparse
  rw [VerifierPipeline.checkIn, if_pos hcontract, hcheck'] at hcheck
  have hrun := (Prod.mk.inj (Option.some.inj hcheck)).1
  rw [← hrun] at hcase
  exact hnone hlookup case hcase hpassed

/-- **No pass is vacuous exactly if every command of pytest is compared with
a baseline**, or nothing can pass. -/
theorem noVacuousPass_iff (fromstring : String → Option XmlElement) (git : GitCommands)
    (p : VerifierPipeline) (w : Checkout) (hcontract : p.verifyContract = true)
    (hreads : ReadsReports fromstring p) :
    NoVacuousPass fromstring git p w ↔ (Passable git p w → Compared p) := by
  constructor
  · intro hall hpassable command hcommand hpytest
    by_contra hnone
    rw [Option.not_isSome_iff_eq_none] at hnone
    exact exists_vacuous hcontract hreads hpassable command hcommand hpytest hnone hall
  · intro himp σ ws s report targets hcheckout hrun hpassed
    obtain ⟨hpassable, runs, hruns, hcommands, -, hall⟩ := tests_of_pass hcontract hrun hpassed
    rw [hcheckout] at hpassable
    exact ⟨runs, hruns, hcommands, hall (himp hpassable)⟩

end

/-! ## The attempts of a snapshot -/

/-- Only the command of the baseline is compared. -/
theorem compared_pipeline {base : Commit} {snapshot : Shared.TaskSnapshot}
    {command : Shared.RunCommand} {cases : TestCases} :
    Compared ((attemptOf base snapshot command).pipeline (some cases)) ↔
      ∀ check ∈ command.taskSpec.failToPass ++ command.taskSpec.passToPass, isPytest check →
        check = snapshot.baseline.command := by
  have hlookup : ∀ check, (((attemptOf base snapshot command).pipeline
      (some cases)).baselineCases.lookup check).isSome ↔ check = snapshot.baseline.command := by
    intro check
    show ([(snapshot.baseline.command, cases)].lookup check).isSome ↔ _
    by_cases heq : check = snapshot.baseline.command
    · simp [heq]
    · have hne : (check == snapshot.baseline.command) = false := by simpa using heq
      simp [List.lookup_cons, hne, heq]
  show (∀ check ∈ command.taskSpec.failToPass ++ command.taskSpec.passToPass, isPytest check →
    _) ↔ _
  simp only [hlookup]

def skippedXml : String :=
  "<testsuite><testcase classname=\"suite\" name=\"test_bug\"><skipped/></testcase></testsuite>"

/-- The parser, on this report too. -/
def threeReports (xml : String) : Option XmlElement :=
  if xml = skippedXml then some (.node "testsuite" [] [.node "testcase"
    [("classname", "suite"), ("name", "test_bug")] [.node "skipped" [] []]])
  else twoReports xml

/-- The pipeline of an attempt whose one test has failed before the agent. -/
def bugPipeline (command : Shared.RunCommand) : VerifierPipeline :=
  (attemptOf (fixingHost.commit command.repo.baseCommit) Shared.storedSnapshot command).pipeline
    (some [("suite::test_bug", "failed")])

theorem lookup_bugPipeline {command : Shared.RunCommand} {check : String} {before : TestCases}
    (h : (bugPipeline command).baselineCases.lookup check = some before) :
    check = "pytest -q" ∧ before = [("suite::test_bug", "failed")] := by
  have hmem : (check, before) ∈ (bugPipeline command).baselineCases := by
    obtain ⟨l₁, l₂, hcases, -⟩ := List.lookup_eq_some_iff.mp h
    rw [hcases]
    exact List.mem_append_right _ List.mem_cons_self
  have hmem : (check, before) ∈ [(Shared.storedSnapshot.baseline.command,
      [("suite::test_bug", "failed")])] := hmem
  rw [List.mem_singleton, Prod.mk.injEq] at hmem
  exact ⟨hmem.1.trans (by decide), hmem.2⟩

theorem threeReports_reads (command : Shared.RunCommand) :
    ReadsReports threeReports (bugPipeline command) := by
  refine ⟨⟨skippedXml, [("suite::test_bug", "skipped")], by rfl, by decide, by decide⟩, ?_⟩
  intro check before hbefore _
  rw [(lookup_bugPipeline hbefore).2]
  exact ⟨passedXml, [("suite::test_bug", "passed")], by rfl, by decide⟩

/-- The work tree of the fix. -/
def fixedCheckout : Checkout := fixedSandbox.checkout true

set_option maxRecDepth 20000 in
/-- The gates do not read the commands. -/
theorem bugPipeline_gates (passToPass : List String) : ∃ ok,
    (bugPipeline { storedCommand with taskSpec := { storedCommand.taskSpec with passToPass } }).gates
      (plainGit editPatch) fixedCheckout = .ok ok := by
  have hok : ((bugPipeline storedCommand).gates (plainGit editPatch) fixedCheckout).isOk := by
    decide +kernel
  obtain ⟨ok, hok⟩ : ∃ ok, (bugPipeline storedCommand).gates (plainGit editPatch) fixedCheckout =
      .ok ok := by
    cases h : (bugPipeline storedCommand).gates (plainGit editPatch) fixedCheckout with
    | ok ok => exact ⟨ok, rfl⟩
    | error report =>
      rw [h] at hok
      exact absurd hok (by simp [Except.isOk, Except.toBool])
  exact ⟨ok, hok⟩

theorem bugPipeline_passable (passToPass : List String) : Passable (plainGit editPatch)
    (bugPipeline { storedCommand with taskSpec := { storedCommand.taskSpec with passToPass } })
    fixedCheckout := by
  refine ⟨bugPipeline_gates passToPass, fun check _ before hbefore => ?_⟩
  obtain ⟨rfl, rfl⟩ := lookup_bugPipeline hbefore
  exact ⟨by decide, _, List.mem_cons_self, by decide⟩

/-- With no other command than that of the baseline, no pass is vacuous. -/
theorem noVacuousPass_of_baseline : NoVacuousPass threeReports (plainGit editPatch)
    (bugPipeline { storedCommand with taskSpec := { storedCommand.taskSpec with passToPass := [] } })
    fixedCheckout := by
  refine (noVacuousPass_iff threeReports _ _ _ (by rfl) (threeReports_reads _)).mpr fun _ => ?_
  rw [bugPipeline, compared_pipeline]
  decide

/-- The regression tests of the stored snapshot may all be skipped. -/
theorem skipped_regression_passes :
    ¬ NoVacuousPass threeReports (plainGit editPatch) (bugPipeline storedCommand)
      fixedCheckout :=
  exists_vacuous (by rfl) (threeReports_reads _)
    (bugPipeline_passable storedCommand.taskSpec.passToPass) "pytest" (by decide) (by decide)
    (by decide)

end Runtime

end AgentReliability
