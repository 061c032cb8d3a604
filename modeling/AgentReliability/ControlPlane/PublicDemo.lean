import AgentReliability.ControlPlane.Dispatch
import AgentReliability.ControlPlane.Writes
/-!
# What the public demo admits

In the public demo anyone may create a task. Its input is checked and its
budget overridden before the transaction, and the transaction counts the
runs that are active and the tasks of the day under a lock. Beside them the
owner may confirm tasks of their own, which are counted, but not refused.
-/

namespace AgentReliability

namespace ControlPlane

variable {ctx : Context} {r r' : RunRows}

/-! ## A run of the demo -/

/-- The run is of a fixture. -/
def RunRows.ofFixture (r : RunRows) : Bool := r.task.snapshot.isNone

/-- A run of a fixture that counts as active. -/
def RunRows.demoRunning (r : RunRows) : Bool := r.ofFixture && decide (r.run.status ∈ demoActive)

/-- The task of a fixture, created on the day of a time. -/
def RunRows.createdOn (t : Time) (r : RunRows) : Bool :=
  r.ofFixture && decide (midnight r.task.createdAt = midnight t)

/-- The budget of a command is that of the demo. -/
def DemoBudget (b : Budget) : Prop :=
  b.tokens = 10000 ∧ b.seconds = 180 ∧ b.turns = 10 ∧ b.remainingTokens ≤ 10000

/-- **What holds of a run the demo has admitted.** -/
structure DemoRun (r : RunRows) : Prop where
  fixture : r.task.fixtureId ∈ [some "py-logic-001", some "ts-logic-001"]
  agent : r.run.agentKind = .selfLanggraph
  budget : r.run.budgetTokens = 10000 ∧ r.run.budgetSeconds = 180 ∧ r.run.budgetTurns = 10
  commands : ∀ m ∈ r.outbox, DemoBudget m.payload.budget

/-- What is sent to a run of the demo has its budget. -/
theorem DemoRun.composes (h : DemoRun r) (hfixture : r.task.snapshot = none) {command : RunCommand}
    (hsent : Composes ctx r command) : DemoBudget command.budget := by
  obtain ⟨htokens, hseconds, hturns⟩ := h.budget
  cases hsent with
  | resume hsnapshot =>
    rw [hfixture] at hsnapshot
    exact absurd hsnapshot (by simp)
  | @retry action no command hretry =>
    unfold retryCommand at hretry
    rw [hfixture] at hretry
    simp only [buildRunCommand, bind_eq_ok, orThrow_eq_ok, pure_eq_ok] at hretry
    obtain ⟨built, ⟨fixture, -, rfl⟩, hretry⟩ := hretry
    have hbudget : DemoBudget {
        tokens := r.run.budgetTokens, seconds := r.run.budgetSeconds, turns := r.run.budgetTurns
        remainingTokens := r.run.budgetTokens - r.run.usedTokens
        remainingSeconds := (r.run.budgetSeconds - r.run.usedSeconds).toNat } := by
      refine ⟨htokens, hseconds, hturns, ?_⟩
      show r.run.budgetTokens - r.run.usedTokens ≤ 10000
      omega
    split at hretry
    · rw [← pure_eq_ok.mp hretry]
      exact hbudget
    · simp only [bind_eq_ok, pure_eq_ok] at hretry
      obtain ⟨-, -, rfl⟩ := hretry
      exact hbudget

/-- A write that sends no command keeps the run one of the demo. -/
theorem DemoRun.same (h : DemoRun r) (hinput : SameInput r r')
    (houtbox : ∀ m ∈ r'.outbox, ∃ m' ∈ r.outbox, m.payload = m'.payload) : DemoRun r' := by
  obtain ⟨htokens, hseconds, hturns⟩ := hinput.budget
  refine ⟨by rw [hinput.task]; exact h.fixture, by rw [hinput.agentKind]; exact h.agent,
    by rw [htokens, hseconds, hturns]; exact h.budget, fun m hm => ?_⟩
  obtain ⟨m', hm', hpayload⟩ := houtbox m hm
  rw [hpayload]
  exact h.commands m' hm'

/-- An event is no command. -/
theorem recordEvent_outbox {attemptId : Option AttemptId} {attemptSequence : ℕ}
    {type : TraceEventType} {payload : TracePayload} {key : ℕ → EventKey} {occurredAt : Time}
    (h : recordEvent ctx r attemptId attemptSequence type payload key occurredAt = .ok r') :
    r'.outbox = r.outbox := by
  simp only [recordEvent, bind_eq_ok, pure_eq_ok] at h
  obtain ⟨-, -, rfl⟩ := h
  rfl

theorem DemoRun.write (h : DemoRun r) (hfixture : r.task.snapshot = none)
    (hwrite : Write ctx r r') : DemoRun r' := by
  have hinput := hwrite.sameInput
  have hkept : r'.outbox = r.outbox → DemoRun r' := fun hsame =>
    h.same hinput fun m hm => ⟨m, by rw [← hsame]; exact hm, rfl⟩
  cases hwrite with
  | move _ _ hevent => exact hkept ((recordEvent_outbox hevent).trans rfl)
  | phase hevent => exact hkept ((recordEvent_outbox hevent).trans rfl)
  | event _ hevent => exact hkept (recordEvent_outbox hevent)
  | @send command hsent notBefore =>
    refine ⟨h.fixture, h.agent, h.budget, fun m hm => ?_⟩
    rcases List.mem_append.mp hm with hold | hnew
    · exact h.commands m hold
    · rw [List.mem_singleton.mp hnew]
      exact h.composes hfixture hsent
  | @message j f hf =>
    refine h.same hinput fun m hm => ?_
    obtain ⟨k, hk⟩ := List.getElem?_of_mem hm
    change (r.outbox.modify j f)[k]? = some m at hk
    rw [List.getElem?_modify] at hk
    obtain ⟨m', hm', rfl⟩ := Option.map_eq_some_iff.mp hk
    refine ⟨m', List.mem_of_getElem? hm', ?_⟩
    split
    · exact hf m'
    · rfl
  | _ => exact hkept rfl

/-! ## Admission -/

theorem midnight_le (t : Time) : midnight t ≤ t :=
  Int.sub_le_self t (Int.emod_nonneg t (by decide))

/-- What the demo has checked of a task it creates. -/
structure Admitted (ctx : Context) (runs : List RunRows) (r : RunRows) : Prop where
  fixture : r.task.snapshot = none
  createdAt : r.task.createdAt = ctx.now
  maxAttempts : r.run.maxAttempts = 3
  demo : DemoRun r
  idle : runs.countP (fun r => r.run.status ∈ demoActive) = 0
  today : runs.countP (fun r => midnight ctx.now ≤ r.task.createdAt) < 100

theorem createTask_admitted (hdemo : ctx.publicDemo = true) {runs : List RunRows}
    {input : CreateTaskInput} (h : createTask ctx runs input = .ok r) : Admitted ctx runs r := by
  simp only [createTask, demoInput, admitDemo, hdemo, if_true, assertDemoInput,
    assertDemoCapacity, bind_eq_ok, require_eq_ok, orThrow_eq_ok, pure_eq_ok] at h
  obtain ⟨_, ⟨-, ⟨hfixture, hagent, -⟩, rfl⟩, fixture, hfound, baseCommit, -, -,
    ⟨-, hidle, htoday⟩, queued, hqueued, command, hcommand, hrun⟩ := h
  have hid : fixture.id = input.fixtureId := ctx.fixtures.id_of_find hfound
  simp only [transitionTask, bind_eq_ok, pure_eq_ok] at hqueued
  obtain ⟨-, -, -, -, rfl⟩ := hqueued
  simp only [buildRunCommand, bind_eq_ok, orThrow_eq_ok, pure_eq_ok] at hcommand
  obtain ⟨found, -, rfl⟩ := hcommand
  simp only [transitionRun, appendSyntheticEvent, recordEvent, bind_eq_ok, pure_eq_ok] at hrun
  obtain ⟨-, -, -, -, -, -, rfl⟩ := hrun
  refine ⟨rfl, rfl, rfl, ⟨?_, hagent, ⟨rfl, rfl, rfl⟩, fun m hm => ?_⟩, hidle, htoday⟩
  · show some fixture.id ∈ _
    rw [hid]
    simpa using hfixture
  · obtain rfl := List.mem_singleton.mp hm
    exact ⟨rfl, rfl, rfl, le_rfl⟩

/-! ## The runs of the demo -/

/-- **What the demo keeps.** -/
structure DemoInv (runs : List RunRows) : Prop where
  running : runs.countP RunRows.demoRunning ≤ 1
  quota : ∀ t, runs.countP (RunRows.createdOn t) ≤ 100
  rows : ∀ r ∈ runs, r.ofFixture → DemoRun r ∧ r.run.maxAttempts = 3

/-- A row that is written does not count if it did not before. -/
theorem countP_set_le {α : Type*} {p : α → Bool} {l : List α} {i : ℕ} {a b : α}
    (ha : l[i]? = some a) (h : p b → p a) : (l.set i b).countP p ≤ l.countP p := by
  obtain ⟨hlt, rfl⟩ := List.getElem?_eq_some_iff.mp ha
  rw [List.countP_set hlt]
  by_cases hb : p b
  · have hpos : 0 < l.countP p := List.countP_pos_iff.mpr ⟨_, List.getElem_mem hlt, h hb⟩
    rw [if_pos (h hb), if_pos hb]
    omega
  · rw [if_neg hb]
    split <;> omega

/-- The demo admits one more run. -/
theorem DemoInv.admit {runs : List RunRows} (h : DemoInv runs) (hr : Admitted ctx runs r) :
    DemoInv (runs ++ [r]) := by
  refine ⟨?_, fun t => ?_, fun x hx hfixture => ?_⟩
  · have hnone : runs.countP RunRows.demoRunning ≤ 0 := by
      rw [← hr.idle]
      refine List.countP_mono_left fun x _ hx => ?_
      exact ((Bool.and_eq_true _ _).mp hx).2
    have hone : [r].countP RunRows.demoRunning ≤ 1 := List.countP_le_length
    rw [List.countP_append]
    omega
  · rw [List.countP_append]
    by_cases hday : midnight r.task.createdAt = midnight t
    · have htoday : runs.countP (RunRows.createdOn t) < 100 := by
        refine lt_of_le_of_lt (List.countP_mono_left fun x _ hx => ?_) hr.today
        have hsame : midnight x.task.createdAt = midnight t :=
          of_decide_eq_true ((Bool.and_eq_true _ _).mp hx).2
        have hle := midnight_le x.task.createdAt
        rw [hsame, ← hday, hr.createdAt] at hle
        exact decide_eq_true hle
      have hone : [r].countP (RunRows.createdOn t) ≤ 1 := List.countP_le_length
      omega
    · have hnone : RunRows.createdOn t r = false := by
        unfold RunRows.createdOn
        rw [decide_eq_false hday, Bool.and_false]
      rw [List.countP_singleton, hnone]
      exact h.quota t
  · rcases List.mem_append.mp hx with hold | hnew
    · exact h.rows x hold hfixture
    · rw [List.mem_singleton.mp hnew]
      exact ⟨hr.demo, hr.maxAttempts⟩

/-- The owner confirms a task of their own. -/
theorem DemoInv.confirm {runs : List RunRows} (h : DemoInv runs) (hr : r.ofFixture = false) :
    DemoInv (runs ++ [r]) := by
  have hnone : ∀ p : RunRows → Bool, (p r → r.ofFixture) → (runs ++ [r]).countP p =
      runs.countP p := by
    intro p hp
    have hnot : p r = false := by
      by_contra hpr
      have hfixture := hp (by simpa using hpr)
      rw [hr] at hfixture
      exact absurd hfixture (by simp)
    rw [List.countP_append, List.countP_singleton, hnot]
    rfl
  refine ⟨?_, fun t => ?_, fun x hx hfixture => ?_⟩
  · rw [hnone _ fun hp => ((Bool.and_eq_true _ _).mp hp).1]
    exact h.running
  · rw [hnone _ fun hp => ((Bool.and_eq_true _ _).mp hp).1]
    exact h.quota t
  · rcases List.mem_append.mp hx with hold | hnew
    · exact h.rows x hold hfixture
    · rw [List.mem_singleton.mp hnew, hr] at hfixture
      exact absurd hfixture (by simp)

/-- A fixture run that is not active never is again: no one can resume
it. -/
theorem RunCore.Step.demoActive {c d : RunCore} (h : RunCore.Step c d) (hfixture : c.snapshot = none)
    (hd : d.status ∈ ControlPlane.demoActive) : c.status ∈ ControlPlane.demoActive := by
  cases h with
  | claim hstatus => rw [hstatus]; decide
  | succeed _ hstatus => rw [hstatus]; decide
  | park _ hstatus => rw [hstatus]; decide
  | redispatch _ hstatus => rw [hstatus]; decide
  | abort _ hstatus => rw [hstatus]; decide
  | cancel => exact absurd hd (by show RunStatus.cancelled ∉ ControlPlane.demoActive; decide)
  | resume _ hsnapshot => rw [hfixture] at hsnapshot; exact absurd hsnapshot (by simp)
  | _ => exact hd

/-- A transaction writes the rows of one run. -/
theorem DemoInv.wrote {s : State} (hs : Sound s) (h : DemoInv s.db.runs) {env : Env} {id : RunId}
    {w : Writer} (hr : s.db.runs[id]? = some r)
    (hrow : RowStep (s.db.context env id) r r' w) : DemoInv (s.db.runs.set id r') := by
  obtain ⟨hinv, hfrozen⟩ := hs.rows hr
  have hinput := hrow.sameInput hinv
  have hstep := hrow.core hr hinv hfrozen
  have hsnapshot : r'.task.snapshot = r.task.snapshot := by rw [hinput.task]
  have hfixture : r'.ofFixture = r.ofFixture := by
    unfold RunRows.ofFixture
    rw [hsnapshot]
  refine ⟨?_, fun t => ?_, fun x hx hx' => ?_⟩
  · refine le_trans (countP_set_le hr fun hactive => ?_) h.running
    obtain ⟨hfirst, hstatus⟩ := (Bool.and_eq_true _ _).mp hactive
    rw [hfixture] at hfirst
    refine (Bool.and_eq_true _ _).mpr ⟨hfirst, decide_eq_true ?_⟩
    exact hstep.demoActive (Option.isNone_iff_eq_none.mp hfirst) (of_decide_eq_true hstatus)
  · refine le_trans (countP_set_le hr fun hday => ?_) (h.quota t)
    have hsame : RunRows.createdOn t r' = RunRows.createdOn t r := by
      unfold RunRows.createdOn
      rw [hfixture, hinput.task]
    rw [← hsame]
    exact hday
  · rcases List.mem_or_eq_of_mem_set hx with hold | rfl
    · exact h.rows x hold hx'
    · rw [hfixture] at hx'
      obtain ⟨hdemo, hmax⟩ := h.rows r (List.mem_of_getElem? hr) hx'
      have hnone : r.task.snapshot = none := Option.isNone_iff_eq_none.mp hx'
      have hkept : DemoRun x ∧ x.task.snapshot = none := by
        refine (hrow.writes hinv).keeps (P := fun a => DemoRun a ∧ a.task.snapshot = none) ?_
          ⟨hdemo, hnone⟩
        rintro a b ⟨ha, hanone⟩ hwrite
        exact ⟨ha.write hanone hwrite, by rw [hwrite.sameInput.task]; exact hanone⟩
      exact ⟨hkept.1, (RunCore.Later.of_step hstep).maxAttempts.trans hmax⟩

/-! ## Over the runs of the machine -/

/-- The tasks of fixtures are created in the public demo. -/
def Event.InDemo : Event → Prop
  | .createTask env _ => env.publicDemo = true
  | _ => True

theorem demoInv_step {s : State} (hs : Sound s) (h : DemoInv s.db.runs) {e : Event}
    (he : e.InDemo) : DemoInv (step s e).db.runs := by
  rcases db_step s e with ⟨db, hc, hdb⟩ | hsame
  · rw [hdb]
    cases e with
    | createTask env input =>
      obtain ⟨r, hr, rfl⟩ := Option.map_eq_some_iff.mp hc
      have hdemo : (s.creation env).publicDemo = true := he
      exact h.admit (createTask_admitted hdemo (toOption_eq_some.mp hr))
    | confirm env input readAt =>
      obtain ⟨r, hr, rfl⟩ := Option.map_eq_some_iff.mp hc
      refine h.confirm ?_
      unfold confirmed? at hr
      split at hr
      · exact absurd hr (by simp)
      · split at hr
        · next rows hconfirm =>
          obtain rfl := Option.some.inj hr
          rw [confirm_created hconfirm]
          rfl
        · exact absurd hr (by simp)
    | request env req =>
      obtain ⟨tx, r, r', hprep, hr, hbody, rfl⟩ := Request.commit_eq_some hc
      exact h.wrote hs hr (hs.rowStep_of_prepare hprep hr hbody)
    | environment env id token fingerprint imageId log =>
      obtain ⟨db', hdb', rfl⟩ := Option.map_eq_some_iff.mp hc
      rw [toOption_eq_some] at hdb'
      simp only [Database.transact, bind_eq_ok, orThrow_eq_ok, pure_eq_ok] at hdb'
      obtain ⟨r, hr, r', hbody, rfl⟩ := hdb'
      exact h.wrote hs hr (.environment hbody)
    | publish => exact absurd hc (by simp [Event.commit?])
  · rw [hsame]
    exact h

theorem demoInv_of_run {es : List Event} (hes : ∀ e ∈ es, e.InDemo) :
    DemoInv (machine.run es).db.runs := by
  induction es using List.reverseRecOn with
  | nil => exact ⟨by decide, fun t => by simp [Machine.run, machine], by simp [Machine.run, machine]⟩
  | append_singleton es e ih =>
    rw [machine.run_concat]
    exact demoInv_step (sound_of_reachable (machine.reachable_run es))
      (ih fun x hx => hes x (List.mem_append_left _ hx)) (hes e (by simp))

/-- **What the public demo can be made to do.** However requests interleave,
beside any tasks the owner confirms and whatever becomes of the runs, at
most one run of a fixture is active; no more than a hundred tasks of
fixtures are created on a day; and each of their runs is of one of the two
fixtures, has at most three attempts, and is sent no command that allows
more than the demo's budget. -/
theorem public_demo_bounded {es : List Event} (hes : ∀ e ∈ es, e.InDemo) :
    let runs := (machine.run es).db.runs
    runs.countP RunRows.demoRunning ≤ 1 ∧
      (∀ t, runs.countP (RunRows.createdOn t) ≤ 100) ∧
      ∀ r ∈ runs, r.task.snapshot = none → DemoRun r ∧ r.attempts.length ≤ 3 := by
  intro runs
  have hinv := demoInv_of_run hes
  refine ⟨hinv.running, hinv.quota, fun r hr hfixture => ?_⟩
  obtain ⟨hdemo, hmax⟩ := hinv.rows r hr (Option.isNone_iff_eq_none.mpr hfixture)
  obtain ⟨id, hid⟩ := List.getElem?_of_mem hr
  have hle := (numbersAgree ((sound_of_reachable (machine.reachable_run es)).rows hid).1
    (dispatchInv_of_run es hid)).attempts_le
  exact ⟨hdemo, by omega⟩

/-- The environment of the demo, with one of its fixtures. -/
def visitorsEnv (now : Time) : Env := { envAt now with
  fixtures := {
    find := fun id => if id = "py-logic-001" then some { fakeFixture with id := id } else none
    id_of_find := by
      intro id fixture h
      split at h
      · rw [← Option.some.inj h]
      · exact absurd h (by simp) }
  resolve := fun _ _ => some "base"
  publicDemo := true }

def demoTask : CreateTaskInput := { fixtureId := "py-logic-001", agentKind := .selfLanggraph }

/-- Two visitors create a task at a time, and a third once it is
cancelled. -/
def visitors : List Event := [
  .createTask (visitorsEnv 0) demoTask,
  .createTask (visitorsEnv 1) demoTask,
  .request (visitorsEnv 2) (.cancel 0),
  .createTask (visitorsEnv 3) demoTask]

theorem public_demo_bounded_of_visitors :
    let runs := (machine.run visitors).db.runs
    (runs.length = 2 ∧ runs.countP RunRows.demoRunning = 1 ∧
      runs.countP (RunRows.createdOn 0) = 2) ∧
      ∀ r ∈ runs, r.task.snapshot = none → DemoRun r ∧ r.attempts.length ≤ 3 := by
  refine ⟨by decide, (public_demo_bounded ?_).2.2⟩
  simp [visitors, Event.InDemo, visitorsEnv]

end ControlPlane

end AgentReliability
