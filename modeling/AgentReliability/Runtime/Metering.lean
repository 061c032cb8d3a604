import AgentReliability.ControlPlane.Usage
import AgentReliability.Runtime.TokenBudget
/-!
# The usage of a run, over its attempts

The agents of the attempts run beside the control plane. What an agent
reports, at a checkpoint or at its end, is what its counter shows then; the
report is a request, which commits at any later moment, on whatever it has
read before. The column `usedTokens` of a fixture run is written by these
requests alone.

The thread an attempt finds is left open. It is what LangGraph has
persisted for the run, and a crash or an attempt that goes on after its
lease is lost may set it back.
-/

namespace AgentReliability

namespace Runtime

open ControlPlane

/-! ## Executors and their reports -/

/-- What executes an attempt: the scripted executor of the fixture `fake`,
which calls no model, or the agent. -/
inductive Executor where
  | fake
  | real (a : AgentAttempt) (l : AgentLoop)

namespace Executor

/-- `Worker.execute`. -/
def start (a : AgentAttempt) : Executor :=
  if a.command.taskSpec.fixtureId = some "fake" then fake else real a a.start

/-- What the executor reports as used. -/
def usedTokens : Executor → ℕ
  | fake => 0
  | real _ l => l.usedTokens

/-- The tokens of the model calls it has made. -/
def spent : Executor → ℕ
  | fake => 0
  | real _ l => l.meter.spent

def finished : Executor → Bool
  | fake => true
  | real _ l => l.finished

end Executor

/-- A request of a worker that carries a usage, on its way. -/
inductive Report where
  | checkpoint (input : Checkpoint)
  | complete (id : AttemptId) (outcome : Outcome)

namespace Report

/-- The request, with what the server reads for it. -/
def request (token : Option LeaseToken) (check : LeaseCheck) (readAt : ReadAt) : Report → Request
  | checkpoint input => .saveCheckpoint input.attemptId.runId input token check
  | complete id outcome => .complete id token outcome check readAt

/-- The attempt it completes, if it reports a usage. -/
def completes : Report → Option AttemptId
  | checkpoint _ => none
  | complete id outcome => if outcome.extras.usedTokens.isSome then some id else none

end Report

/-- The outcome, with a usage. -/
def withUsage (used : ℕ) : Outcome → Outcome
  | .succeeded extras => .succeeded { extras with usedTokens := some used }
  | .failed code extras => .failed code { extras with usedTokens := some used }

/-! ## The system -/

structure Metering where
  plane : State := {}
  executors : AttemptId → Option Executor := fun _ => none
  sent : List Report := []
  /-- The attempts that have completed with a reported usage. -/
  completed : List AttemptId := []

inductive MeteringEvent where
  /-- An event of the control plane that reports no usage of a fixture run. -/
  | plane (e : Event)
  /-- The worker that was granted an attempt executes its command. -/
  | start (id : AttemptId) (a : AgentAttempt)
  | input (id : AttemptId) (x : AgentInput)
  | checkpoint (id : AttemptId) (input : Checkpoint)
  /-- The executor has returned, and its outcome is reported. -/
  | complete (id : AttemptId) (outcome : Outcome)
  /-- The executor has raised: a failure is reported, without a usage. -/
  | fail (id : AttemptId) (code : FailureCode)
  /-- A report is handled; a request may be handled more than once. -/
  | deliver (k : ℕ) (env : Env) (token : Option LeaseToken) (check : LeaseCheck) (readAt : ReadAt)

namespace Metering

variable (s : Metering)

/-- What an attempt would report. -/
def counter (id : AttemptId) : ℕ := ((s.executors id).map Executor.usedTokens).getD 0

/-- What the model calls of an attempt have come to. -/
def spent (id : AttemptId) : ℕ := ((s.executors id).map Executor.spent).getD 0

/-- **The tokens of the attempts of a run that have completed with a
reported usage.** -/
def completedTokens (runId : RunId) : ℕ :=
  ((s.completed.filter (·.runId = runId)).map s.spent).sum

/-- The usage of a fixture run is reported by its executors alone. -/
def Foreign (e : Event) : Prop :=
  ∀ id ∈ e.usageOf, ∀ r ∈ s.plane.db.runs[id]?, r.isSnapshot = true

instance (e : Event) : Decidable (s.Foreign e) := by
  unfold Foreign; infer_instance

/-- The attempt was claimed for a command of the stream, and is executed
once. -/
def MayStart (id : AttemptId) (a : AgentAttempt) : Prop :=
  a.command ∈ s.plane.stream ∧ a.command.runId = id.runId ∧ (s.executors id).isNone ∧
    (s.plane.db.runs[id.runId]?).any fun r =>
      r.isSnapshot = false && (r.attempts[id.index]?).any (·.no = a.command.attemptNo)

instance (id : AttemptId) (a : AgentAttempt) : Decidable (s.MayStart id a) := by
  unfold MayStart; infer_instance

def setExecutor (id : AttemptId) (e : Executor) : Metering :=
  { s with executors := fun j => if j = id then some e else s.executors j }

def send (m : Report) : Metering := { s with sent := s.sent ++ [m] }

/-- A report is handled. What commits completes its attempt. -/
def handle (m : Report) (env : Env) (token : Option LeaseToken) (check : LeaseCheck)
    (readAt : ReadAt) : Metering :=
  let e := Event.request env (m.request token check readAt)
  { s with
    plane := step s.plane e
    completed := match m.completes with
      | some id => if (e.commit? s.plane).isSome then s.completed.insert id else s.completed
      | none => s.completed }

/-- One event. What is not possible does nothing. -/
def step (d : DefaultAgent) (s : Metering) : MeteringEvent → Metering
  | .plane e => if s.Foreign e then { s with plane := ControlPlane.step s.plane e } else s
  | .start id a => if s.MayStart id a then s.setExecutor id (.start a) else s
  | .input id x =>
    match s.executors id with
    | some (.real a l) => s.setExecutor id (.real a (l.step d a.command.budget x))
    | _ => s
  | .checkpoint id input =>
    match s.executors id with
    | some (.real _ l) =>
      s.send (.checkpoint { input with attemptId := id, usedTokens := l.usedTokens })
    | _ => s
  | .complete id outcome =>
    match s.executors id with
    | some e => if e.finished then s.send (.complete id (withUsage e.usedTokens outcome)) else s
    | none => s
  | .fail id code =>
    if (s.executors id).isSome then s.send (.complete id (.failed code {})) else s
  | .deliver k env token check readAt =>
    match s.sent[k]? with
    | some m => s.handle m env token check readAt
    | none => s

end Metering

/-- The control plane and the executors of its fixture runs. -/
def metering (d : DefaultAgent) : Machine Metering MeteringEvent where
  init := {}
  step := Metering.step d

/-- **A run that is counted**: an agent starts its counter at no less than
the tokens of the attempts of its run that have completed, and every answer
carries the call it was asked for. -/
def MeteringEvent.Counted (s : Metering) : MeteringEvent → Prop
  | .start id a =>
    s.MayStart id a ∧ a.command.taskSpec.fixtureId ≠ some "fake" →
      s.completedTokens id.runId ≤ a.start.usedTokens
  | .input _ x => x.isFormatError = false
  | _ => True

instance (s : Metering) (e : MeteringEvent) : Decidable (e.Counted s) := by
  cases e <;> unfold MeteringEvent.Counted <;> infer_instance

/-! ## What a report does to the column -/

namespace Metering

variable {d : DefaultAgent} {s : Metering}

/-- **What holds of every state**: an executor belongs to an attempt of a
fixture run; a report on its way carries what the counter of its attempt
showed once, and at the end what it will always show; and since any version
an executing attempt was seen in, the column was raised to its counter at
most. -/
structure Inv (s : Metering) : Prop where
  sound : Sound s.plane
  started : ∀ {id : AttemptId} {e : Executor}, s.executors id = some e →
    ∃ r, s.plane.db.runs[id.runId]? = some r ∧ r.isSnapshot = false ∧
      id.index < r.core.attempts.length
  checkpoints : ∀ {input : Checkpoint}, Report.checkpoint input ∈ s.sent →
    (s.executors input.attemptId).isSome ∧ input.usedTokens ≤ s.counter input.attemptId
  completions : ∀ {id : AttemptId} {outcome : Outcome}, Report.complete id outcome ∈ s.sent →
    ∃ e, s.executors id = some e ∧ ∀ used, outcome.extras.usedTokens = some used →
      e.finished = true ∧ used = e.usedTokens
  completed : ∀ id ∈ s.completed, ∃ e, s.executors id = some e ∧ e.finished = true
  raised : ∀ {k : ℕ} {id : AttemptId} {seen r : RunRows} {no no' : ℕ},
    s.plane.runAt k id.runId = some seen → seen.core.Executing id.index no →
    s.plane.db.runs[id.runId]? = some r → r.isSnapshot = false → r.core.Executing id.index no' →
    r.run.usedTokens ≤ max seen.run.usedTokens (s.counter id)

theorem Inv.init : Inv (metering d).init where
  sound := Sound.init
  started := fun h => absurd h (by simp [metering])
  checkpoints := fun h => absurd h (by simp [metering])
  completions := fun h => absurd h (by simp [metering])
  completed := fun _ h => absurd h (by simp [metering])
  raised := fun _ _ h => absurd h (by simp [metering])

/-- **What an event of the control plane does to the column of a fixture
run**, in terms of the counters. -/
inductive ColumnStep (s : Metering) (id : RunId) (r r' : RunRows) : Prop
  | same (h : r'.run.usedTokens = r.run.usedTokens)
  | checkpoint {i no used : ℕ} (hi : r.core.Executing i no) (hused : used ≤ s.counter ⟨id, i⟩)
      (h : r'.run.usedTokens = max r.run.usedTokens used)
  | complete {i no k : ℕ} {seen : RunRows} (hi : r.core.Executing i no)
      (hstatus : r'.run.status ≠ .running) (hseen : s.plane.runAt k id = some seen)
      (hexecuting : seen.core.Executing i no)
      (h : r'.run.usedTokens = max seen.run.usedTokens (s.counter ⟨id, i⟩))

/-- The events that reach the control plane. -/
inductive Reaches (s : Metering) : Event → Prop
  | foreign {e : Event} (h : s.Foreign e) : Reaches s e
  | report {m : Report} (h : m ∈ s.sent) (env : Env) (token : Option LeaseToken)
      (check : LeaseCheck) (readAt : ReadAt) : Reaches s (.request env (m.request token check readAt))

theorem counter_of_some {id : AttemptId} {e : Executor} (h : s.executors id = some e) :
    s.counter id = e.usedTokens := by
  unfold counter
  rw [h]
  rfl

theorem Inv.columnStep (h : Inv s) {e : Event} (he : s.Reaches e) {id : RunId} {r r' : RunRows}
    (hr : s.plane.db.runs[id]? = some r) (hfixture : r.isSnapshot = false)
    (hr' : (ControlPlane.step s.plane e).db.runs[id]? = some r') : ColumnStep s id r r' := by
  by_cases hquiet : e.usageOf = some id
  · cases he with
    | foreign hforeign =>
      have hsnapshot := hforeign id (Option.mem_def.mpr hquiet) r (Option.mem_def.mpr hr)
      exact absurd (hfixture.symm.trans hsnapshot) (by decide)
    | @report m hm env token check readAt =>
      rcases db_step s.plane (.request env (m.request token check readAt)) with ⟨db, hc, hdb⟩ | hdb
      · rw [hdb] at hr'
        cases m with
        | checkpoint input =>
          have hid : input.attemptId.runId = id := Option.some.inj hquiet
          subst hid
          obtain ⟨-, ⟨no, hi⟩, hused⟩ := column_of_saveCheckpoint hc hr hfixture hr'
          exact .checkpoint hi (h.checkpoints hm).2 hused
        | complete aid outcome =>
          have hid : aid.runId = id := Option.some.inj hquiet
          subst hid
          obtain ⟨seen, no, hseen, hexecuting, hi, hstatus, hused⟩ :=
            column_of_complete h.sound hc hr hfixture hr'
          obtain ⟨x, hx, hreport⟩ := h.completions hm
          unfold CompleteExtras.column at hused
          cases hextras : outcome.extras.usedTokens with
          | none =>
            rw [hextras] at hused
            exact .same hused
          | some used =>
            rw [hextras] at hused
            rw [(hreport used hextras).2, ← counter_of_some hx] at hused
            exact .complete hi hstatus hseen hexecuting hused
      · rw [hdb, hr] at hr'
        exact .same (by rw [Option.some.inj hr'])
  · exact .same (usedTokens_of_quiet h.sound hquiet hr hr')

/-- **The column never decreases.** -/
theorem Inv.column_le (h : Inv s) {e : Event} (he : s.Reaches e) {id : RunId} {r r' : RunRows}
    (hr : s.plane.db.runs[id]? = some r) (hfixture : r.isSnapshot = false)
    (hr' : (ControlPlane.step s.plane e).db.runs[id]? = some r') :
    r.run.usedTokens ≤ r'.run.usedTokens := by
  cases h.columnStep he hr hfixture hr' with
  | same hused => exact Nat.le_of_eq hused.symm
  | checkpoint _ _ hused =>
    rw [hused]
    exact Nat.le_max_left _ _
  | @complete i no k seen hi _ hseen hexecuting hused =>
    -- The stale read is made good by the counter: nothing else has raised the column since.
    rw [hused]
    exact Inv.raised h hseen hexecuting hr hfixture hi

/-- Two attempts of a run that execute are one. -/
theorem index_eq {c : RunCore} (hinv : c.StatusInv) {i j no no' : ℕ} (hi : c.Executing i no)
    (hj : c.Executing j no') : i = j := by
  have hlast := (hinv.executing hi).1
  have hlast' := (hinv.executing hj).1
  omega

/-- An attempt that is there, and executes after an event, executed before
it. -/
theorem executing_before {p : State} (hs : Sound p) {e : Event} {id : RunId} {r r' : RunRows}
    (hr : p.db.runs[id]? = some r) (hr' : (ControlPlane.step p e).db.runs[id]? = some r')
    {i no : ℕ} (hlt : i < r.core.attempts.length) (hi : r'.core.Executing i no) :
    r.core.Executing i no := by
  obtain ⟨x, hx, hlater⟩ := dbLater_step hs e id r hr
  obtain rfl := Option.some.inj (hr'.symm.trans hx)
  exact hlater.executing hlt hi

/-- The rows of a run before an event, from an older version of them. -/
theorem rows_of_runAt {p : State} (hs : Sound p) {k : ℕ} {id : RunId} {seen : RunRows}
    (hseen : p.runAt k id = some seen) :
    ∃ r, p.db.runs[id]? = some r ∧ seen.core.Later r.core := by
  obtain ⟨v, hv, -, hrow⟩ := Sound.of_runAt hseen
  exact hs.later_db hv id seen hrow

/-- A version of a run after an event is one from before it, or the newest. -/
theorem runAt_step {p : State} {e : Event} {k : ℕ} {id : RunId} {seen : RunRows}
    (h : (ControlPlane.step p e).runAt k id = some seen) :
    p.runAt k id = some seen ∨ (ControlPlane.step p e).db.runs[id]? = some seen := by
  unfold ControlPlane.step at h ⊢
  split at h
  · rename_i db hc
    obtain ⟨v, hv, hrow⟩ := Option.bind_eq_some_iff.mp h
    have hversions : (p.versions ++ [db])[k]? = some v := hv
    rcases getElem?_append_one hversions with hold | ⟨-, rfl⟩
    · exact .inl (Option.bind_eq_some_iff.mpr ⟨v, hold, hrow⟩)
    · exact .inr hrow
  · exact .inl h

theorem isSnapshot_of_later {r r' : RunRows} (h : r.core.Later r'.core) :
    r'.isSnapshot = r.isSnapshot := by
  rw [← RunRows.core_snapshot_isSome, ← RunRows.core_snapshot_isSome, h.snapshot]

/-- **An event of the control plane keeps what holds.** -/
theorem Inv.plane (h : Inv s) {e : Event} (he : s.Reaches e) {completed : List AttemptId}
    (hcompleted : ∀ id ∈ completed, ∃ e, s.executors id = some e ∧ e.finished = true) :
    Inv { s with plane := ControlPlane.step s.plane e, completed } where
  sound := h.sound.step e
  started := by
    intro id x hx
    obtain ⟨r, hr, hfixture, hlt⟩ := h.started hx
    obtain ⟨r', hr', hlater⟩ := dbLater_step h.sound e id.runId r hr
    exact ⟨r', hr', (isSnapshot_of_later hlater).trans hfixture, hlt.trans_le hlater.length_le⟩
  checkpoints := h.checkpoints
  completions := h.completions
  completed := hcompleted
  raised := by
    intro k id seen r' no no' hseen hexecuting hr' hfixture' hi'
    rcases runAt_step hseen with hold | hnew
    · obtain ⟨r, hr, hseenLater⟩ := rows_of_runAt h.sound hold
      obtain ⟨x, hx, hlater⟩ := dbLater_step h.sound e id.runId r hr
      obtain rfl := Option.some.inj (hr'.symm.trans hx)
      have hlt : id.index < r.core.attempts.length :=
        (List.getElem?_eq_some_iff.mp hexecuting).1.trans_le hseenLater.length_le
      have hi := hlater.executing hlt hi'
      have hfixture := (isSnapshot_of_later hlater).symm.trans hfixture'
      have hbefore := h.raised hold hexecuting hr hfixture hi
      cases h.columnStep he hr hfixture hr' with
      | same hused =>
        rw [hused]
        exact hbefore
      | @checkpoint j m used hj hle hused =>
        -- The checkpoint is the executing attempt's own.
        obtain rfl := index_eq (h.sound.rows hr).1 hi hj
        have hown : used ≤ s.counter id := hle
        rw [hused]
        change max r.run.usedTokens used ≤ max seen.run.usedTokens (s.counter id)
        omega
      | complete _ hstatus _ _ _ =>
        have hrunning := (((h.sound.step e).rows hr').1.executing hi').2
        exact absurd hrunning hstatus
    · have hsame : seen = r' := Option.some.inj (hnew.symm.trans hr')
      rw [hsame]
      exact Nat.le_max_left _ _

/-! ## What an executor does to its counter -/

/-- The executor of one attempt is set, or goes on. -/
theorem Inv.setExecutor (h : Inv s) {id : AttemptId} {e : Executor}
    (hstarted : ∃ r, s.plane.db.runs[id.runId]? = some r ∧ r.isSnapshot = false ∧
      id.index < r.core.attempts.length)
    (hcounter : s.counter id ≤ e.usedTokens)
    (hfinished : ∀ x, s.executors id = some x → x.finished = true → e = x) :
    Inv (s.setExecutor id e) := by
  have hself : (s.setExecutor id e).executors id = some e := if_pos rfl
  have hother : ∀ {j}, j ≠ id → (s.setExecutor id e).executors j = s.executors j :=
    fun hj => if_neg hj
  have hcounters : ∀ j, s.counter j ≤ (s.setExecutor id e).counter j := by
    intro j
    by_cases hj : j = id
    · subst hj
      rw [counter_of_some hself]
      exact hcounter
    · unfold counter
      rw [hother hj]
  have hkept : ∀ {j x}, s.executors j = some x → x.finished = true →
      (s.setExecutor id e).executors j = some x := by
    intro j x hx hfin
    by_cases hj : j = id
    · subst hj
      rw [hself, hfinished x hx hfin]
    · rw [hother hj]
      exact hx
  refine ⟨h.sound, ?_, ?_, ?_, ?_, ?_⟩
  · intro j x hx
    by_cases hj : j = id
    · subst hj
      exact hstarted
    · rw [hother hj] at hx
      exact h.started hx
  · intro input hm
    obtain ⟨hsome, hle⟩ := h.checkpoints hm
    refine ⟨?_, hle.trans (hcounters _)⟩
    by_cases hj : input.attemptId = id
    · rw [hj, hself]
      rfl
    · rw [hother hj]
      exact hsome
  · intro j outcome hm
    obtain ⟨x, hx, hreport⟩ := h.completions hm
    cases hextras : outcome.extras.usedTokens with
    | none =>
      by_cases hj : j = id
      · subst hj
        exact ⟨e, hself, fun used hused => absurd hused (by simp)⟩
      · exact ⟨x, (hother hj).trans hx, fun used hused => absurd hused (by simp)⟩
    | some used =>
      obtain ⟨hfin, hused⟩ := hreport used hextras
      refine ⟨x, hkept hx hfin, fun used' hused' => ?_⟩
      rw [← Option.some.inj hused']
      exact ⟨hfin, hused⟩
  · intro j hj
    obtain ⟨x, hx, hfin⟩ := h.completed j hj
    exact ⟨x, hkept hx hfin, hfin⟩
  · intro k j seen r no no' hseen hexecuting hr hfixture hi
    have hbefore := h.raised hseen hexecuting hr hfixture hi
    have hgrown := hcounters j
    omega

/-- A report is sent. -/
theorem Inv.send (h : Inv s) {m : Report}
    (hcheckpoint : ∀ input, m = .checkpoint input →
      (s.executors input.attemptId).isSome ∧ input.usedTokens ≤ s.counter input.attemptId)
    (hcomplete : ∀ id outcome, m = .complete id outcome →
      ∃ e, s.executors id = some e ∧ ∀ used, outcome.extras.usedTokens = some used →
        e.finished = true ∧ used = e.usedTokens) : Inv (s.send m) where
  sound := h.sound
  started := h.started
  checkpoints := by
    intro input hm
    rcases List.mem_append.mp hm with hm | hm
    · exact h.checkpoints hm
    · exact hcheckpoint input (List.mem_singleton.mp hm).symm
  completions := by
    intro id outcome hm
    rcases List.mem_append.mp hm with hm | hm
    · exact h.completions hm
    · exact hcomplete id outcome (List.mem_singleton.mp hm).symm
  completed := h.completed
  raised := h.raised

/-- An attempt that may start is one of a fixture run. -/
theorem MayStart.row {id : AttemptId} {a : AgentAttempt} (h : s.MayStart id a) :
    s.executors id = none ∧ ∃ r, s.plane.db.runs[id.runId]? = some r ∧ r.isSnapshot = false ∧
      id.index < r.core.attempts.length := by
  obtain ⟨-, -, hnone, hrow⟩ := h
  refine ⟨Option.isNone_iff_eq_none.mp hnone, ?_⟩
  obtain ⟨r, hr, hr'⟩ := (Option.any_eq_true _ _).mp hrow
  simp only [Bool.and_eq_true, decide_eq_true_eq] at hr'
  obtain ⟨hfixture, hattempt⟩ := hr'
  obtain ⟨x, hx, -⟩ := (Option.any_eq_true _ _).mp hattempt
  refine ⟨r, hr, hfixture, ?_⟩
  simpa [RunRows.core] using (List.getElem?_eq_some_iff.mp hx).1

/-- What a delivery records. -/
theorem Inv.handled (h : Inv s) {m : Report} (hm : m ∈ s.sent) {env : Env}
    {token : Option LeaseToken} {check : LeaseCheck} {readAt : ReadAt} :
    ∀ id ∈ (s.handle m env token check readAt).completed,
      ∃ e, s.executors id = some e ∧ e.finished = true := by
  intro id hid
  unfold handle at hid
  simp only at hid
  cases m with
  | checkpoint input => exact h.completed id hid
  | complete aid outcome =>
    unfold Report.completes at hid
    by_cases hused : outcome.extras.usedTokens.isSome
    · simp only [if_pos hused] at hid
      split at hid
      · rcases List.mem_insert_iff.mp hid with rfl | hid
        · obtain ⟨e, he, hreport⟩ := h.completions hm
          obtain ⟨used, hextras⟩ := Option.isSome_iff_exists.mp hused
          exact ⟨e, he, (hreport used hextras).1⟩
        · exact h.completed id hid
      · exact h.completed id hid
    · simp only [if_neg hused] at hid
      exact h.completed id hid

/-- **Every event keeps what holds.** -/
theorem Inv.step (h : Inv s) (e : MeteringEvent) : Inv (Metering.step d s e) := by
  cases e with
  | plane e =>
    simp only [Metering.step]
    split
    · rename_i hforeign
      exact h.plane (.foreign hforeign) h.completed
    · exact h
  | start id a =>
    simp only [Metering.step]
    split
    · rename_i hmay
      obtain ⟨hnone, hrow⟩ := hmay.row
      refine h.setExecutor hrow ?_ fun x hx => absurd (hnone.symm.trans hx) (by simp)
      unfold counter
      rw [hnone]
      exact Nat.zero_le _
    · exact h
  | input id x =>
    simp only [Metering.step]
    split
    · rename_i a l hexecutor
      refine h.setExecutor (h.started hexecutor) ?_ fun y hy hfinished => ?_
      · rw [counter_of_some hexecutor]
        exact AgentLoop.usedTokens_le_step x
      · obtain rfl := Option.some.inj (hexecutor.symm.trans hy)
        rw [AgentLoop.step_of_finished hfinished]
    · exact h
  | checkpoint id input =>
    simp only [Metering.step]
    split
    · rename_i a l hexecutor
      refine h.send (fun input' hinput => ?_) fun _ _ h => Report.noConfusion h
      obtain rfl := Report.checkpoint.inj hinput
      exact ⟨by simp [hexecutor], Nat.le_of_eq (counter_of_some hexecutor).symm⟩
    · exact h
  | complete id outcome =>
    simp only [Metering.step]
    split
    · rename_i x hexecutor
      split
      · rename_i hfinished
        refine h.send (fun _ h => Report.noConfusion h) fun id' outcome' hm => ?_
        obtain ⟨rfl, rfl⟩ := Report.complete.inj hm
        refine ⟨x, hexecutor, fun used hused => ⟨hfinished, ?_⟩⟩
        cases outcome <;> exact (Option.some.inj hused).symm
      · exact h
    · exact h
  | fail id code =>
    simp only [Metering.step]
    split
    · rename_i hsome
      obtain ⟨x, hexecutor⟩ := Option.isSome_iff_exists.mp hsome
      refine h.send (fun _ h => Report.noConfusion h) fun id' outcome' hm => ?_
      obtain ⟨rfl, rfl⟩ := Report.complete.inj hm
      exact ⟨x, hexecutor, fun used hused => absurd hused (by simp [Outcome.extras])⟩
    · exact h
  | deliver k env token check readAt =>
    simp only [Metering.step]
    split
    · rename_i m hm
      have hmem := List.mem_of_getElem? hm
      exact h.plane (.report hmem env token check readAt) (h.handled hmem)
    · exact h

theorem inv_of_run (es : List MeteringEvent) : Inv ((metering d).run es) :=
  (metering d).invariant (Inv.init (d := d)) (fun _ e h => h.step e) ((metering d).reachable_run es)

/-! ## Counted runs -/

/-- The sum reads the executors of the completed attempts. -/
theorem completedTokens_congr {s' : Metering} (hcompleted : s'.completed = s.completed)
    (hspent : ∀ id ∈ s.completed, s'.spent id = s.spent id) (runId : RunId) :
    s'.completedTokens runId = s.completedTokens runId := by
  unfold completedTokens
  rw [hcompleted]
  refine congrArg List.sum (List.map_congr_left fun id hid => ?_)
  exact hspent id (List.mem_filter.mp hid).1

/-- One more attempt has completed. -/
def insertCompleted (s : Metering) (id : AttemptId) : Metering :=
  { s with completed := s.completed.insert id }

theorem completedTokens_insert_le (id : AttemptId) :
    (s.insertCompleted id).completedTokens id.runId ≤ s.completedTokens id.runId + s.spent id := by
  unfold completedTokens insertCompleted
  simp only
  by_cases hmem : id ∈ s.completed
  · rw [List.insert_of_mem hmem]
    exact Nat.le_add_right _ _
  · rw [List.insert_of_not_mem hmem, List.filter_cons_of_pos (by simp), List.map_cons,
      List.sum_cons]
    exact Nat.le_of_eq (Nat.add_comm _ _)

theorem completedTokens_insert_ne {id : AttemptId} {runId : RunId} (hne : id.runId ≠ runId) :
    (s.insertCompleted id).completedTokens runId = s.completedTokens runId := by
  unfold completedTokens insertCompleted
  simp only
  by_cases hmem : id ∈ s.completed
  · rw [List.insert_of_mem hmem]
  · rw [List.insert_of_not_mem hmem, List.filter_cons_of_neg (by simpa using hne)]
    rfl

/-- **What holds of a counted run**: the column covers the completed
attempts, and so did the counter an executing agent started with, which has
missed nothing since. -/
structure Covered (s : Metering) : Prop where
  column : ∀ {id : RunId} {r : RunRows}, s.plane.db.runs[id]? = some r → r.isSnapshot = false →
    s.completedTokens id ≤ r.run.usedTokens
  counting : ∀ {id : AttemptId} {a : AgentAttempt} {l : AgentLoop} {r : RunRows} {no : ℕ},
    s.executors id = some (.real a l) → s.plane.db.runs[id.runId]? = some r →
    r.core.Executing id.index no →
      s.completedTokens id.runId ≤ a.start.usedTokens ∧ l.Exact a.start.usedTokens

theorem Covered.init : Covered (metering d).init where
  column := fun h => absurd h (by simp [metering])
  counting := fun h => absurd h (by simp [metering])

/-- A run that is not there has completed nothing. -/
theorem Inv.completedTokens_eq_zero (h : Inv s) {id : RunId}
    (hnone : s.plane.db.runs[id]? = none) : s.completedTokens id = 0 := by
  have hempty : s.completed.filter (·.runId = id) = [] := by
    rw [List.filter_eq_nil_iff]
    intro j hj hid
    obtain ⟨e, he, -⟩ := h.completed j hj
    obtain ⟨r, hr, -⟩ := h.started he
    have hrun : j.runId = id := by simpa using hid
    rw [hrun, hnone] at hr
    exact absurd hr (by simp)
  unfold completedTokens
  rw [hempty]
  rfl

/-- An event of the control plane that completes nothing. -/
theorem Covered.plane (hc : Covered s) (h : Inv s) {e : Event} (he : s.Reaches e) :
    Covered { s with plane := ControlPlane.step s.plane e } where
  column := by
    intro id r' hr' hfixture'
    change s.completedTokens id ≤ _
    cases hr : s.plane.db.runs[id]? with
    | none =>
      rw [h.completedTokens_eq_zero hr]
      exact Nat.zero_le _
    | some r =>
      obtain ⟨x, hx, hlater⟩ := dbLater_step h.sound e id r hr
      obtain rfl := Option.some.inj (hr'.symm.trans hx)
      have hfixture := (isSnapshot_of_later hlater).symm.trans hfixture'
      exact (hc.column hr hfixture).trans (h.column_le he hr hfixture hr')
  counting := by
    intro id a l r' no hexecutor hr' hi'
    obtain ⟨r, hr, -, hlt⟩ := h.started hexecutor
    exact hc.counting hexecutor hr (executing_before h.sound hr hr' hlt hi')

/-- **An attempt completes**: its run executes nothing then, and has room
in the column for it. -/
theorem Covered.insert (hc : Covered s) (h : Inv s) {id : AttemptId}
    (hdone : ∀ r, s.plane.db.runs[id.runId]? = some r →
      r.run.status ≠ .running ∧ s.completedTokens id.runId + s.spent id ≤ r.run.usedTokens) :
    Covered (s.insertCompleted id) where
  column := by
    intro j r hr hfixture
    by_cases hj : id.runId = j
    · subst hj
      exact (completedTokens_insert_le id).trans (hdone r hr).2
    · rw [completedTokens_insert_ne hj]
      exact hc.column hr hfixture
  counting := by
    intro j a l r no hexecutor hr hi
    by_cases hj : id.runId = j.runId
    · have hr' : s.plane.db.runs[id.runId]? = some r := hj ▸ hr
      exact absurd ((h.sound.rows hr).1.executing hi).2 (hdone r hr').1
    · rw [completedTokens_insert_ne hj]
      exact hc.counting hexecutor hr hi

/-- **A report is handled.** If it completes its attempt, the usage it
carries covers the attempt and all before it. -/
theorem Covered.handle (hc : Covered s) (h : Inv s) {m : Report} (hm : m ∈ s.sent) (env : Env)
    (token : Option LeaseToken) (check : LeaseCheck) (readAt : ReadAt) :
    Covered (s.handle m env token check readAt) := by
  have hreaches : s.Reaches (.request env (m.request token check readAt)) :=
    .report hm env token check readAt
  have hplane := hc.plane h hreaches
  unfold Metering.handle
  simp only
  split
  · rename_i id hid
    split
    · rename_i hcommit
      cases m with
      | checkpoint input => exact absurd hid (by simp [Report.completes])
      | complete aid outcome =>
        simp only [Report.completes] at hid
        split at hid
        · rename_i hused
          obtain rfl := Option.some.inj hid
          obtain ⟨db, hdb⟩ := Option.isSome_iff_exists.mp hcommit
          obtain ⟨used, hextras⟩ := Option.isSome_iff_exists.mp hused
          obtain ⟨x, hx, hreport⟩ := h.completions hm
          obtain ⟨hfinished, rfl⟩ := hreport used hextras
          refine hplane.insert (h.plane hreaches h.completed) fun r' hr' => ?_
          obtain ⟨r, hr, hfixture, -⟩ := h.started hx
          have hle := h.column_le hreaches hr hfixture hr'
          have hstep : (ControlPlane.step s.plane (.request env
              (Report.request token check readAt (.complete aid outcome)))).db = db := by
            unfold ControlPlane.step
            rw [hdb]
            rfl
          rw [hstep] at hr'
          obtain ⟨seen, no, -, -, hi, hstatus, hcolumn⟩ :=
            column_of_complete h.sound hdb hr hfixture hr'
          refine ⟨hstatus, ?_⟩
          change s.completedTokens aid.runId + s.spent aid ≤ _
          have hspent : s.spent aid = x.spent := by
            unfold spent
            rw [hx]
            rfl
          rw [hspent]
          cases x with
          | fake => exact (hc.column hr hfixture).trans hle
          | real a l =>
            obtain ⟨hbase, hexact⟩ := hc.counting hx hr hi
            have hcount : l.usedTokens = a.start.usedTokens + l.meter.spent :=
              hexact.usedTokens hfinished
            unfold CompleteExtras.column at hcolumn
            rw [hextras] at hcolumn
            change r'.run.usedTokens = max seen.run.usedTokens l.usedTokens at hcolumn
            change s.completedTokens aid.runId + l.meter.spent ≤ r'.run.usedTokens
            omega
        · exact absurd hid (by simp)
    · exact hplane
  · exact hplane

/-- An executor is set or goes on, of an attempt that has not completed. -/
theorem Covered.setExecutor (hc : Covered s) {id : AttemptId} {e : Executor}
    (hspent : id ∈ s.completed → e.spent = s.spent id)
    (hcounting : ∀ a l, e = .real a l → ∀ r no, s.plane.db.runs[id.runId]? = some r →
      r.core.Executing id.index no →
        s.completedTokens id.runId ≤ a.start.usedTokens ∧ l.Exact a.start.usedTokens) :
    Covered (s.setExecutor id e) := by
  have hself : (s.setExecutor id e).executors id = some e := if_pos rfl
  have hother : ∀ {j}, j ≠ id → (s.setExecutor id e).executors j = s.executors j :=
    fun hj => if_neg hj
  have hsum : ∀ runId, (s.setExecutor id e).completedTokens runId = s.completedTokens runId := by
    refine completedTokens_congr rfl fun j hj => ?_
    by_cases hji : j = id
    · subst hji
      rw [← hspent hj]
      unfold spent
      rw [hself]
      rfl
    · unfold spent
      rw [hother hji]
  refine ⟨fun {j r} hr hfixture => ?_, fun {j a l r no} hexecutor hr hi => ?_⟩
  · rw [hsum]
    exact hc.column hr hfixture
  · rw [hsum]
    by_cases hji : j = id
    · subst hji
      exact hcounting a l (Option.some.inj (hexecutor.symm.trans hself)).symm r no hr hi
    · rw [hother hji] at hexecutor
      exact hc.counting hexecutor hr hi

/-- **Every counted event keeps the completed attempts covered.** -/
theorem Covered.step (hc : Covered s) (h : Inv s) {e : MeteringEvent} (he : e.Counted s) :
    Covered (Metering.step d s e) := by
  cases e with
  | plane e =>
    simp only [Metering.step]
    split
    · rename_i hforeign
      exact hc.plane h (.foreign hforeign)
    · exact hc
  | start id a =>
    simp only [Metering.step]
    split
    · rename_i hmay
      obtain ⟨hnone, -⟩ := hmay.row
      refine hc.setExecutor (fun hid => ?_) fun a' l heq r no _ _ => ?_
      · obtain ⟨x, hx, -⟩ := h.completed id hid
        exact absurd (hnone.symm.trans hx) (by simp)
      · unfold Executor.start at heq
        split at heq
        · exact Executor.noConfusion heq
        · rename_i hreal
          obtain ⟨rfl, rfl⟩ := Executor.real.inj heq
          exact ⟨he ⟨hmay, hreal⟩, exact_start a⟩
    · exact hc
  | input id x =>
    simp only [Metering.step]
    split
    · rename_i a l hexecutor
      refine hc.setExecutor (fun hid => ?_) fun a' l' heq r no hr hi => ?_
      · -- A completed attempt has finished, and goes no further.
        obtain ⟨y, hy, hfinished⟩ := h.completed id hid
        obtain rfl := Option.some.inj (hexecutor.symm.trans hy)
        rw [AgentLoop.step_of_finished hfinished]
        unfold spent
        rw [hexecutor]
        rfl
      · obtain ⟨rfl, rfl⟩ := Executor.real.inj heq
        obtain ⟨hbase, hexact⟩ := hc.counting hexecutor hr hi
        exact ⟨hbase, hexact.step he⟩
    · exact hc
  | checkpoint id input =>
    simp only [Metering.step]
    split
    · exact ⟨hc.column, hc.counting⟩
    · exact hc
  | complete id outcome =>
    simp only [Metering.step]
    split
    · split
      · exact ⟨hc.column, hc.counting⟩
      · exact hc
    · exact hc
  | fail id code =>
    simp only [Metering.step]
    split
    · exact ⟨hc.column, hc.counting⟩
    · exact hc
  | deliver k env token check readAt =>
    simp only [Metering.step]
    split
    · rename_i m hm
      exact hc.handle h (List.mem_of_getElem? hm) env token check readAt
    · exact hc

/-- Between two moments no fixture run has lost any usage. -/
def ColumnsGrow (s s' : Metering) : Prop :=
  ∀ (id : RunId) (r : RunRows), s.plane.db.runs[id]? = some r → r.isSnapshot = false →
    ∃ r', s'.plane.db.runs[id]? = some r' ∧ r'.isSnapshot = false ∧
      r.run.usedTokens ≤ r'.run.usedTokens

theorem ColumnsGrow.of_plane {s' : Metering} (h : s'.plane = s.plane) : ColumnsGrow s s' := by
  intro id r hr hfixture
  exact ⟨r, by rw [h]; exact hr, hfixture, Nat.le_refl _⟩

theorem ColumnsGrow.trans {s s' s'' : Metering} (h₁ : ColumnsGrow s s') (h₂ : ColumnsGrow s' s'') :
    ColumnsGrow s s'' := by
  intro id r hr hfixture
  obtain ⟨r', hr', hfixture', hle⟩ := h₁ id r hr hfixture
  obtain ⟨r'', hr'', hfixture'', hle'⟩ := h₂ id r' hr' hfixture'
  exact ⟨r'', hr'', hfixture'', hle.trans hle'⟩

theorem Inv.columnsGrow (h : Inv s) {e : Event} (he : s.Reaches e) {s' : Metering}
    (hs' : s'.plane = ControlPlane.step s.plane e) : ColumnsGrow s s' := by
  intro id r hr hfixture
  obtain ⟨r', hr', hlater⟩ := dbLater_step h.sound e id r hr
  exact ⟨r', by rw [hs']; exact hr', (isSnapshot_of_later hlater).trans hfixture,
    h.column_le he hr hfixture hr'⟩

theorem columnsGrow_step (h : Inv s) (e : MeteringEvent) : ColumnsGrow s (Metering.step d s e) := by
  cases e with
  | plane e =>
    simp only [Metering.step]
    split
    · rename_i hforeign
      exact h.columnsGrow (.foreign hforeign) rfl
    · exact .of_plane rfl
  | deliver k env token check readAt =>
    simp only [Metering.step]
    split
    · rename_i m hm
      exact h.columnsGrow (.report (List.mem_of_getElem? hm) env token check readAt) rfl
    · exact .of_plane rfl
  | start id a => simp only [Metering.step]; split <;> exact .of_plane rfl
  | input id x => simp only [Metering.step]; split <;> exact .of_plane rfl
  | checkpoint id input => simp only [Metering.step]; split <;> exact .of_plane rfl
  | complete id outcome =>
    simp only [Metering.step]
    split
    · split <;> exact .of_plane rfl
    · exact .of_plane rfl
  | fail id code => simp only [Metering.step]; split <;> exact .of_plane rfl

end Metering

/-- **The usage of a fixture run is cumulative**, over any attempts and any
order of their requests, in every run that is counted: the column never
decreases, and covers the attempts that have completed with a usage. -/
theorem usage_cumulative (d : DefaultAgent) (es : List MeteringEvent)
    (hes : (metering d).Admits (fun s e => e.Counted s) (metering d).init es) :
    (∀ before after, es = before ++ after →
      ((metering d).run before).ColumnsGrow ((metering d).run es)) ∧
    ∀ (id : RunId) (r : RunRows), ((metering d).run es).plane.db.runs[id]? = some r →
      r.isSnapshot = false → ((metering d).run es).completedTokens id ≤ r.run.usedTokens := by
  constructor
  · rintro before after rfl
    rw [(metering d).run_append]
    exact (metering d).runFrom_rel (P := Metering.Inv) (R := Metering.ColumnsGrow)
      (fun _ => .of_plane rfl) (fun h₁ h₂ => h₁.trans h₂) (fun _ e h => h.step e)
      (fun _ e h => Metering.columnsGrow_step h e) (Metering.inv_of_run before) after
  · intro id r hr hfixture
    have hboth : ((metering d).run es).Inv ∧ ((metering d).run es).Covered :=
      (metering d).runFrom_of_admits (P := fun s => s.Inv ∧ s.Covered)
        (fun _ e h he => ⟨h.1.step e, h.2.step h.1 he⟩)
        ⟨Metering.Inv.init (d := d), Metering.Covered.init (d := d)⟩ hes
    exact hboth.2.column hr hfixture

/-! ### A restart -/

/-- The registry of one real fixture. -/
def realFixtures : FixtureRegistry where
  find id := if id = "py-logic-001" then some {
    id := "py-logic-001", title := "bug", repoPath := "/fixtures", baseCommit := "main"
    taskSpec := (fixtureCommand .selfLanggraph 1 1000).taskSpec } else none
  id_of_find := by
    intro id fixture h
    split at h
    · rename_i hid
      rw [← Option.some.inj h, hid]
    · exact absurd h (by simp)

def realEnv (now : Time) : Env :=
  { envAt now with fixtures := realFixtures, resolve := fun _ ref => some ref }

/-- An answer without a call, which ends the loop. -/
def lastAnswer (tokens : ℕ) : AgentInput :=
  .node {
    elapsed := 0
    condensed := fun _ => none
    response := some {
      promptTokens := tokens, completionTokens := 0, calls := [], signature := "[]"
      signature_eq := by simp } }

/-- A fixture run whose first attempt uses 500 tokens, and fails on a file
outside the allowed paths. -/
def scopeViolation : List MeteringEvent := [
  .plane (.createTask (realEnv 0) {
    fixtureId := "py-logic-001", agentKind := .selfLanggraph, budgetTokens := some 1000
    budgetSeconds := some 900, budgetTurns := some 20 }),
  .plane (.publish 500 0 0 1),
  .plane (.request (realEnv 1000) (.claim { runId := 0, attemptNo := 1, workerId := "worker" } 1 1)),
  .start ⟨0, 0⟩ (firstAttempt .selfLanggraph),
  .input ⟨0, 0⟩ (lastAnswer 500),
  .complete ⟨0, 0⟩ (.failed .verifyScopeViolation {}),
  .deliver 0 (realEnv 2000) (some 7) (checkAt 2000 2) ⟨2, 2⟩]

/-- Up to the restart the run is counted, and its column covers the 500. -/
theorem usage_of_scopeViolation :
    ∃ r, ((metering limitedAgent).run scopeViolation).plane.db.runs[0]? = some r ∧
      ((metering limitedAgent).run scopeViolation).completedTokens 0 = 500 ∧
      500 ≤ r.run.usedTokens := by
  have hrow : (((metering limitedAgent).run scopeViolation).plane.db.runs[0]?).map
      (·.isSnapshot) = some false := by decide
  obtain ⟨r, hr, hfixture⟩ := Option.map_eq_some_iff.mp hrow
  have hsum : ((metering limitedAgent).run scopeViolation).completedTokens 0 = 500 := by decide
  have hcovered := (usage_cumulative limitedAgent scopeViolation (by decide)).2 0 r hr
    hfixture
  rw [hsum] at hcovered
  exact ⟨r, hr, hsum, hcovered⟩

/-- The policy restarts it, and the second attempt uses 300. -/
def restartedRun : List MeteringEvent := scopeViolation ++ [
  .plane (.publish 2500 0 1 3),
  .plane (.request (realEnv 3000) (.claim { runId := 0, attemptNo := 2, workerId := "worker" } 3 3)),
  .start ⟨0, 1⟩ restartedAttempt,
  .input ⟨0, 1⟩ (lastAnswer 300),
  .complete ⟨0, 1⟩ (.failed .verifyTargetTestsFailed {}),
  .deliver 1 (realEnv 4000) (some 7) (checkAt 4000 4) ⟨4, 4⟩]

/-- **A restart loses what the earlier attempts have used.** The second
attempt reports 300 against the 500 of the first, and the column stays at
500, with 800 used. -/
theorem restart_loses_usage :
    ∃ r, ((metering limitedAgent).run restartedRun).plane.db.runs[0]? = some r ∧
      r.isSnapshot = false ∧ r.run.usedTokens = 500 ∧
      ((metering limitedAgent).run restartedRun).completedTokens 0 = 800 := by
  have hrow : (((metering limitedAgent).run restartedRun).plane.db.runs[0]?).map
      (fun r => (r.isSnapshot, r.run.usedTokens)) = some (false, 500) := by decide +kernel
  obtain ⟨r, hr, hpair⟩ := Option.map_eq_some_iff.mp hrow
  have hsum : ((metering limitedAgent).run restartedRun).completedTokens 0 = 800 := by
    decide +kernel
  exact ⟨r, hr, congrArg Prod.fst hpair, congrArg Prod.snd hpair, hsum⟩

end Runtime

end AgentReliability
