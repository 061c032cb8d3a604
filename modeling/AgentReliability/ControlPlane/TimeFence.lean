import AgentReliability.ControlPlane.TimeLedger
/-!
# The command and the fence on time

A command says how many seconds its attempt may take. The lease fence and
the reservation of tokens count for themselves: the seconds charged so far,
and those on the clock. The two agree as long as the clock starts with the
claim. A snapshot run stops its clock at the end of every attempt, so it
does; a fixture run leaves it running, and its later attempts are charged
for the earlier ones once more.
-/

namespace AgentReliability

namespace ControlPlane

/-! ## The time checks -/

/-- What both time checks come to, of the clock of a run. -/
def RunClock.Exhausted (c : RunClock) (now : Time) : Prop :=
  ∃ started, c.startedAt = some started ∧
    c.budgetSeconds * 1000 ≤ c.usedSeconds * 1000 + (now - started)

/-- **A run whose time is not up passes both time checks.** -/
def TimeChecksPass (ctx : Context) (run : Run) : Prop :=
  timeExhausted ctx run = false ∧ elapsedExhausted ctx run = false

theorem timeChecksPass_iff {ctx : Context} {r : RunRows} (h : r.run.activeStartedAt.isSome) :
    TimeChecksPass ctx r.run ↔ ¬ r.clock.Exhausted ctx.now := by
  obtain ⟨started, hstarted⟩ := Option.isSome_iff_exists.mp h
  have hclock : r.clock.startedAt = some started := hstarted
  unfold TimeChecksPass timeExhausted elapsedExhausted RunClock.Exhausted
  simp only [hstarted, hclock, decide_eq_false_iff_not, and_self]
  constructor
  · rintro hlive ⟨t, ht, hup⟩
    obtain rfl := Option.some.inj ht
    exact hlive hup
  · intro hlive hup
    exact hlive ⟨started, rfl, hup⟩

/-- **A lease whose time checks pass is answered as without them.** -/
theorem lease_of_timeChecksPass {ctx : Context} {run : Run} (hexpired : expired ctx run = false)
    (h : TimeChecksPass ctx run) (token : Option LeaseToken) (a : Attempt) :
    lease ctx token true a run = lease ctx token false a run := by
  unfold lease
  simp [hexpired, h.1]

/-- **So is a reservation**: it is not refused for its time. -/
theorem reserve_of_timeChecksPass {ctx : Context} {r : RunRows} (h : TimeChecksPass ctx r.run)
    (attemptId : AttemptId) (token : Option LeaseToken) (id : CallId) (reserved : ℕ) :
    reserve ctx attemptId token id reserved r ≠
      .error (.conflict "Task time budget exhausted") := by
  intro hrefused
  -- Every other refusal has a text of its own.
  simp [reserve, bind_eq_error, require_eq_error, orThrow_eq_error, h.2, pure, Except.pure]
    at hrefused

/-! ## The clock while an attempt executes -/

/-- **The clock does not move** under an attempt that still executes. -/
def Unmoved (c d : RunClock) : Prop :=
  c.attempts.length ≤ d.attempts.length ∧
    ∀ (i : ℕ) (a : AttemptClock), i < c.attempts.length → d.attempts[i]? = some a →
      a.status = .running → d = c

theorem Unmoved.refl (c : RunClock) : Unmoved c c := ⟨Nat.le_refl _, fun _ _ _ _ _ => rfl⟩

theorem Unmoved.trans {b c d : RunClock} (h₁ : Unmoved b c) (h₂ : Unmoved c d) : Unmoved b d := by
  refine ⟨h₁.1.trans h₂.1, fun i a hi ha hrun => ?_⟩
  obtain rfl := h₂.2 i a (hi.trans_le h₁.1) ha hrun
  exact h₁.2 i a hi ha hrun

theorem RunClock.Step.unmoved {now charged : Time} {c d : RunClock} (h : RunClock.Step now charged c d) :
    Unmoved c d := by
  cases h with
  | stay => exact .refl c
  | claim hstatus hidle =>
    refine ⟨by simp, fun i a hi ha hrun => ?_⟩
    rw [List.getElem?_append_left hi] at ha
    exact absurd hrun (hidle a (List.mem_of_getElem? ha))
  | stop hattempts hrunning hbefore hended =>
    refine ⟨by simp [hattempts], fun i a hi ha hrun => ?_⟩
    -- No attempt executes after the stop.
    rcases getElem?_append_one ha with hold | ⟨-, rfl⟩
    · exact absurd hrun (hbefore a (List.mem_of_getElem? hold))
    · exact absurd hrun hended
  | cancel hidle =>
    exact ⟨Nat.le_refl _, fun i a hi ha hrun => absurd hrun (hidle a (List.mem_of_getElem? ha))⟩
  | resume hidle =>
    exact ⟨Nat.le_refl _, fun i a hi ha hrun => absurd hrun (hidle a (List.mem_of_getElem? ha))⟩

/-! ## What the command of a waiting run carries -/

/-- A run that waits has sent the command of its next attempt, with what
its budget has left. -/
def Waiting (c : RunClock) : Prop :=
  c.status = .dispatched → ∃ command, c.commands.getLast? = some command ∧ c.Carries command

theorem Waiting.step {now charged : Time} {c d : RunClock} (h : Waiting c)
    (hs : RunClock.Step now charged c d) :
    Waiting d := by
  intro hstatus
  cases hs with
  | stay => exact h hstatus
  | claim => exact absurd hstatus (by simp)
  | @stop before a ended status startedAt usedSeconds decisions commands _ _ _ _ _ _ _ _ hsent =>
    rcases hsent with ⟨-, hnot⟩ | ⟨command, rfl, hcommand⟩
    · exact absurd hstatus hnot
    · exact ⟨command, by simp, hcommand⟩
  | cancel => exact absurd hstatus (by simp)
  | @resume command _ _ hcommand => exact ⟨command, by simp, hcommand⟩

theorem waiting_of_run (es : List Event) {id : RunId} {r : RunRows}
    (hr : (machine.run es).db.runs[id]? = some r) : Waiting r.clock :=
  rows_invariant (P := fun _ r => Waiting r.clock)
    (fun hcreates _ => by
      obtain ⟨-, -, -, -, command, hcommands, hcarries⟩ := hcreates.clock
      exact ⟨command, by rw [hcommands]; rfl, hcarries⟩)
    (fun _ hinv hfrozen hP hrow => hP.step (hrow.clock hinv hfrozen)) es hr

/-- Commands numbered in order: the one with the last number is the last. -/
theorem command_eq_last {command last : RunCommand} (commands : List RunCommand)
    (hnumbered : commands.map (·.attemptNo) = List.range' 1 commands.length)
    (hmem : command ∈ commands) (hno : command.attemptNo = commands.length)
    (hlast : commands.getLast? = some last) : command = last := by
  obtain ⟨i, hi⟩ := List.getElem?_of_mem hmem
  have hlt : i < commands.length := (List.getElem?_eq_some_iff.mp hi).1
  have hat : (commands.map (·.attemptNo))[i]? = some command.attemptNo := by
    rw [List.getElem?_map, hi]
    rfl
  rw [hnumbered, List.getElem?_range' hlt, Option.some.injEq] at hat
  have hend : i = commands.length - 1 := by omega
  rw [List.getLast?_eq_getElem?, ← hend, hi] at hlast
  exact Option.some.inj hlast

/-- A fixture run has no deadline. -/
theorem deadlineAt_of_fixture (es : List Event) {id : RunId} {r : RunRows}
    (hr : (machine.run es).db.runs[id]? = some r) :
    r.clock.snapshot.isSome = false → r.clock.deadlineAt = none := by
  refine rows_invariant (P := fun _ r => r.clock.snapshot.isSome = false → r.clock.deadlineAt = none)
    (fun hcreates hs => ?_) (fun _ hinv hfrozen hP hrow => ?_) es hr
  · cases hcreates with
    | createTask h =>
      simp only [createTask, bind_eq_ok] at h
      obtain ⟨input, -, fixture, -, baseCommit, -, -, -, r₁, h₁, command, -, h₂⟩ := h
      have hclock := transitionRun_clock h₂
      rw [RunRows.clock_send, transitionTask_clock h₁] at hclock
      rw [hclock]
      rfl
    | confirm h =>
      subst h
      exact absurd hs (by simp [snapshotRows, RunRows.clock])
  · obtain ⟨hsnapshot, hdeadline⟩ := (hrow.clock hinv hfrozen).frozen
    rw [hsnapshot, hdeadline]
    exact hP

/-! ## The agreement -/

/-- **The command and the fence agree on an attempt.** In every state from
`s` on in which the attempt still executes, a time check made within
`seconds` of the claim at `t` passes, unless the deadline has passed. -/
def FenceAgrees (s : State) (id : AttemptId) (t : Time) (seconds : ℕ) : Prop :=
  ∀ (fs : List Event) (r : RunRows) (a : Attempt),
    (machine.runFrom s fs).db.runs[id.runId]? = some r → r.attempts[id.index]? = some a →
    a.status = .running → ∀ ctx : Context, t ≤ ctx.now → ctx.now < t + seconds * 1000 →
      expired ctx r.run = false → TimeChecksPass ctx r.run

/-- What a claim leaves: the attempt executes, on the clock of the run it
read. -/
theorem claim_leaves {es : List Event} {env : Env} {input : ClaimInput} {runAt attemptAt : ℕ}
    {db : Database} {e : Event} (he : e = .request env (.claim input runAt attemptAt))
    (hc : e.commit? (machine.run es) = some db) :
    ∃ seen r r' a, (machine.run es).runAt runAt input.runId = some seen ∧
      seen.run.status = .dispatched ∧ (machine.run es).db.runs[input.runId]? = some r ∧
      r.run.status = .dispatched ∧ input.attemptNo = r.attempts.length + 1 ∧
      (step (machine.run es) e).db.runs[input.runId]? = some r' ∧
      r'.attempts[r.attempts.length]? = some a ∧ a.status = .running ∧
      r'.clock = { r.clock with
        status := .running
        startedAt := some (seen.run.activeStartedAt.getD env.now)
        attempts := r.clock.attempts ++ [⟨input.attemptNo, .running, none⟩] } := by
  subst he
  have hsound := sound_of_reachable (machine.reachable_run es)
  obtain ⟨seen, r, r', ⟨hseen, hstatus⟩, hr, hclaim, hdb⟩ := claim_commit_seen hc
  obtain ⟨hdispatched, -, hclock⟩ := claimAttempt_clock (hsound.rows hr).1 hclaim
  have hattempt : r'.clock.attempts[r.attempts.length]? =
      some ⟨input.attemptNo, .running, none⟩ := by
    rw [hclock]
    simp [RunRows.clock]
  obtain ⟨a, ha, haclock⟩ : ∃ a, r'.attempts[r.attempts.length]? = some a ∧
      a.clock = ⟨input.attemptNo, .running, none⟩ := by
    simpa [RunRows.clock] using hattempt
  refine ⟨seen, r, r', a, hseen, hstatus, hr, hdispatched, ?_, ?_, ha, ?_, hclock⟩
  · simp only [claimAttempt, bind_eq_ok, require_eq_ok] at hclaim
    obtain ⟨-, ⟨-, hno, -⟩, -⟩ := hclaim
    rw [hno]
    have hlatest := (hsound.rows hr).1.latestNo
    rw [RunRows.core_latestNo] at hlatest
    rw [hlatest]
    simp [RunRows.core]
  · unfold step
    rw [hc]
    change db.runs[input.runId]? = some r'
    rw [hdb, List.getElem?_set_self (List.getElem?_eq_some_iff.mp hr).1]
  · exact congrArg AttemptClock.status haclock

/-- After the claim the clock stands still while the attempt executes. -/
theorem clock_of_executing {s : State} (hs : Sound s) {id : RunId} {i : ℕ} {r r' : RunRows}
    {a : Attempt} {fs : List Event} (hr : s.db.runs[id]? = some r) (hi : i < r.attempts.length)
    (hr' : (machine.runFrom s fs).db.runs[id]? = some r') (ha : r'.attempts[i]? = some a)
    (hrun : a.status = .running) : r'.clock = r.clock := by
  obtain ⟨x, hx, hunmoved⟩ := rows_relation (W := fun _ => True) (P := fun _ => True)
    (R := fun r r' => Unmoved r.clock r'.clock) (fun r => .refl r.clock) (fun h₁ h₂ => h₁.trans h₂)
    (fun _ _ => trivial) (fun _ hinv hfrozen _ _ hrow => (hrow.clock hinv hfrozen).unmoved) hs hr
    trivial fs fun _ _ => trivial
  obtain rfl := Option.some.inj (hx.symm.trans hr')
  refine hunmoved.2 i a.clock (by simpa [RunRows.clock] using hi) ?_ hrun
  simp [RunRows.clock, ha]

/-- A clock started before the claim is up before the command's time is. -/
theorem exists_early {t started : ℤ} {seconds : ℕ} (hsome : seconds ≠ 0) (hlt : started < t) :
    ∃ now : ℤ, t ≤ now ∧ now < t + seconds * 1000 ∧ started + seconds * 1000 ≤ now :=
  ⟨max t (started + seconds * 1000), by omega, by omega, by omega⟩

/-- A clock started no earlier than the claim is not. -/
theorem not_up {budgetSeconds : ℕ} {usedSeconds t started now : ℤ} (hfrom : t ≤ now)
    (hto : now < t + (budgetSeconds - usedSeconds).toNat * 1000)
    (hstart : (budgetSeconds - usedSeconds).toNat = 0 ∨ t ≤ started) :
    ¬ budgetSeconds * 1000 ≤ usedSeconds * 1000 + (now - started) := by
  omega

/-- **When the command and the fence agree.** They agree on the attempt of
a claim exactly if the run is a snapshot run, or the command left no time,
or the run the claim read had no clock started before it. -/
theorem fenceAgrees_iff {es : List Event} {env : Env} {input : ClaimInput} {runAt attemptAt : ℕ}
    {db : Database}
    (hc : (Event.request env (.claim input runAt attemptAt)).commit? (machine.run es) = some db)
    {seen r : RunRows} (hseen : (machine.run es).runAt runAt input.runId = some seen)
    (hr : (machine.run es).db.runs[input.runId]? = some r) {m : OutboxMessage} (hm : m ∈ r.outbox)
    (hno : m.payload.attemptNo = input.attemptNo) :
    FenceAgrees (step (machine.run es) (.request env (.claim input runAt attemptAt)))
        ⟨input.runId, r.attempts.length⟩ env.now m.payload.budget.remainingSeconds ↔
      r.isSnapshot ∨ m.payload.budget.remainingSeconds = 0 ∨
        ∀ started ∈ seen.run.activeStartedAt, env.now ≤ started := by
  have hreach := machine.reachable_run es
  have hsound := sound_of_reachable hreach
  obtain ⟨seen', x, r', a, hseen', hstatus, hx, hdispatched, hnext, hr', ha, hrun, hclock⟩ :=
    claim_leaves rfl hc
  obtain rfl := Option.some.inj (hseen.symm.trans hseen')
  obtain rfl := Option.some.inj (hr.symm.trans hx)
  -- The command is the last one, and carries what the budget has left.
  have hcarries : m.payload.budget.remainingSeconds =
      (r.clock.budgetSeconds - r.clock.usedSeconds).toNat := by
    obtain ⟨command, hlast, hcarries⟩ := waiting_of_run es hr hdispatched
    have hdispatch := dispatchInv_of_run es hr
    have hcount := (hdispatch.dispatched hdispatched).1
    have hcommand : m.payload = command := by
      refine command_eq_last r.clock.commands hdispatch.numbered
        (List.mem_map_of_mem hm) ?_ hlast
      have hcommands : r.clock.commands.length = r.attempts.length + 1 := by
        simpa [RunRows.core, RunRows.clock] using hcount
      rw [hno, hnext, hcommands]
    rw [hcommand]
    exact hcarries
  have hexhausted : ∀ now : Time, r'.clock.Exhausted now ↔
      r.clock.budgetSeconds * 1000 ≤
        r.clock.usedSeconds * 1000 + (now - seen.run.activeStartedAt.getD env.now) := by
    intro now
    rw [hclock]
    constructor
    · rintro ⟨started, hstarted, hup⟩
      obtain rfl := Option.some.inj hstarted
      exact hup
    · exact fun hup => ⟨_, rfl, hup⟩
  constructor
  · intro hagrees
    by_contra hcond
    obtain ⟨hfixture, hsome, hbefore⟩ : ¬ r.isSnapshot ∧
        m.payload.budget.remainingSeconds ≠ 0 ∧ ∃ started ∈ seen.run.activeStartedAt,
          started < env.now := by
      simpa [not_or, not_forall] using hcond
    obtain ⟨started, hstarted, hlt⟩ := hbefore
    have hdeadline : r'.clock.deadlineAt = none := by
      rw [hclock]
      exact deadlineAt_of_fixture es hr (Bool.not_eq_true _ ▸ hfixture)
    -- The time is up as soon as the earlier clock has run for what is left.
    obtain ⟨now, hfrom, hto, hup⟩ := exists_early hsome hlt
    have hpass := hagrees [] r' a hr' ha hrun
      { db.context { env with now } input.runId with } hfrom hto
      (by
        have hnone : r'.run.deadlineAt = none := hdeadline
        unfold expired
        rw [hnone])
    rw [timeChecksPass_iff (by
      change r'.clock.startedAt.isSome
      rw [hclock]
      rfl)] at hpass
    refine hpass ((hexhausted now).mpr ?_)
    rw [Option.mem_def.mp hstarted, Option.getD_some]
    rw [hcarries] at hup hsome
    change (_ : ℤ) ≤ _ + (now - started)
    omega
  · intro hcond fs r'' a' hr'' ha' hrun' ctx hfrom hto _
    have hlength : r.attempts.length < r'.attempts.length := (List.getElem?_eq_some_iff.mp ha).1
    have hsame := clock_of_executing (hsound.step _) hr' hlength hr'' ha' hrun'
    have hstart : m.payload.budget.remainingSeconds = 0 ∨
        env.now ≤ seen.run.activeStartedAt.getD env.now := by
      rcases hcond with hs | hzero | hclockless
      · rw [stopped_of_seen hseen hstatus hr hs]
        exact .inr (Int.le_refl env.now)
      · exact .inl hzero
      · cases hstarted : seen.run.activeStartedAt with
        | none => exact .inr (Int.le_refl env.now)
        | some started => exact .inr (hclockless started hstarted)
    rw [timeChecksPass_iff (by
      change r''.clock.startedAt.isSome
      rw [hsame, hclock]
      rfl), hsame, hexhausted]
    rw [hcarries] at hto hstart
    exact not_up hfrom hto hstart

/-- A fixture run of 60 seconds whose first attempt fails after 25 of them. -/
def retriedFixture : List Event := [
  .createTask (envAt 0) { fixtureId := "fake", agentKind := .selfLanggraph, budgetSeconds := some 60 },
  claimAt 1000 0 1 1,
  .request (envAt 26000) (.complete ⟨0, 0⟩ (some 7) (.failed .toolExecError { usedSeconds := some 25 })
    (checkAt 26000 2) ⟨2, 2⟩)]

/-- The command and the fence agree on its first attempt. -/
theorem fenceAgrees_of_first :
    FenceAgrees (step (machine.run (retriedFixture.take 1)) (claimAt 1000 0 1 1)) ⟨0, 0⟩ 1000 60 := by
  obtain ⟨r, hr⟩ : ∃ r, (machine.run (retriedFixture.take 1)).db.runs[0]? = some r := ⟨_, rfl⟩
  obtain ⟨db, hc⟩ : ∃ db, (claimAt 1000 0 1 1).commit? (machine.run (retriedFixture.take 1)) =
    some db := ⟨_, rfl⟩
  obtain ⟨m, hm⟩ : ∃ m, r.outbox = [m] := by
    have hone : ((machine.run (retriedFixture.take 1)).db.runs[0]?).map (·.outbox.length) = some 1 := by
      decide
    rw [hr] at hone
    exact List.length_eq_one_iff.mp (Option.some.inj hone)
  have hall : ((machine.run (retriedFixture.take 1)).db.runs[0]?).map (fun r =>
      (r.attempts.length, r.run.activeStartedAt, r.outbox.map (·.payload.attemptNo),
        r.outbox.map (·.payload.budget.remainingSeconds))) = some (0, none, [1], [60]) := by decide
  rw [hr, Option.map_some, Option.some.injEq, hm] at hall
  simp only [List.map_cons, List.map_nil, Prod.mk.injEq, List.cons.injEq, and_true] at hall
  obtain ⟨hattempts, hstarted, hno, hseconds⟩ := hall
  have hseen : (machine.run (retriedFixture.take 1)).runAt 1 0 = some r := hr
  have hmem : m ∈ r.outbox := by rw [hm]; simp
  have hagrees := (fenceAgrees_iff hc hseen hr hmem hno).mpr
    (.inr (.inr (by rw [hstarted]; simp)))
  rw [hattempts, hseconds] at hagrees
  exact hagrees

/-- **The fence rejects its second attempt early.** Claimed at 27 s with 35
seconds left, it is rejected 9 seconds later: the 25 seconds of the first
attempt are on the clock as well. -/
theorem fence_rejects_early :
    ¬ FenceAgrees (machine.run (retriedFixture ++ [claimAt 27000 0 2 3])) ⟨0, 1⟩ 27000 35 ∧
      ∃ r a, (machine.run (retriedFixture ++ [claimAt 27000 0 2 3])).db.runs[0]? = some r ∧
        r.outbox.map (fun m => (m.payload.attemptNo, m.payload.budget.remainingSeconds)) =
          [(1, 60), (2, 35)] ∧
        r.attempts[1]? = some a ∧ r.run.deadlineAt = none ∧
        lease (({} : Database).context (envAt 36000) 0) (some 7) true a r.run =
          .error (.conflict "Task execution time exhausted") ∧
        reserve (({} : Database).context (envAt 36000) 0) ⟨0, 1⟩ (some 7) 0 100 r =
          .error (.conflict "Task time budget exhausted") := by
  obtain ⟨r, hr⟩ : ∃ r, (machine.run (retriedFixture ++ [claimAt 27000 0 2 3])).db.runs[0]? = some r :=
    ⟨_, rfl⟩
  have hrows : ((machine.run (retriedFixture ++ [claimAt 27000 0 2 3])).db.runs[0]?).map (fun r =>
      (r.outbox.map (fun m => (m.payload.attemptNo, m.payload.budget.remainingSeconds)),
        r.attempts.map (·.status), r.run.deadlineAt,
        timeExhausted (({} : Database).context (envAt 36000) 0) r.run)) =
      some ([(1, 60), (2, 35)], [.failed, .running], none, true) := by decide
  have hlease : ((machine.run (retriedFixture ++ [claimAt 27000 0 2 3])).db.runs[0]?).map (fun r =>
      r.attempts[1]?.map fun a =>
        lease (({} : Database).context (envAt 36000) 0) (some 7) true a r.run) =
      some (some (.error (.conflict "Task execution time exhausted"))) := rfl
  have hreserve : ((machine.run (retriedFixture ++ [claimAt 27000 0 2 3])).db.runs[0]?).map (fun r =>
      reserve (({} : Database).context (envAt 36000) 0) ⟨0, 1⟩ (some 7) 0 100 r) =
      some (.error (.conflict "Task time budget exhausted")) := rfl
  rw [hr] at hrows hlease hreserve
  simp only [Option.map_some, Option.some.injEq, Prod.mk.injEq] at hrows hlease hreserve
  obtain ⟨hcommands, hstatuses, hdeadline, hup⟩ := hrows
  obtain ⟨a, ha, hrejected⟩ := Option.map_eq_some_iff.mp hlease
  have hrun : a.status = .running := by
    have hsecond := congrArg (·[1]?) hstatuses
    simpa [ha] using hsecond
  refine ⟨fun hagrees => ?_, r, a, hr, hcommands, ha, hdeadline, hrejected, hreserve⟩
  -- No event in between: the attempt executes, and no deadline is set.
  have hpass := hagrees [] r a hr ha hrun (({} : Database).context (envAt 36000) 0) (by decide)
    (by decide) (by unfold expired; rw [hdeadline])
  exact absurd hup (by rw [hpass.1]; decide)

end ControlPlane

end AgentReliability
