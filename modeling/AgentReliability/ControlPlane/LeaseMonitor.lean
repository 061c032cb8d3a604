import AgentReliability.ControlPlane.Reachability
/-!
# The lease monitor

`LeaseMonitor.tick` fetches up to 20 attempts whose lease has run out and
hands them to `handleLeaseExpired` one after the other. Nothing catches
what a handling throws: the scan ends there, and the attempts behind it
wait for the next one, which finds the same attempt again.

The rest of the control plane goes on between the handlings, and between
the reads of one and its transaction.
-/

namespace AgentReliability

namespace ControlPlane

/-! ## One handling -/

/-- The handling of one attempt, with all that happens until its
transaction. -/
structure Turn where
  id : AttemptId
  env : Env
  /-- Until the attempt is read. -/
  before : List Event := []
  /-- Until the run is read, by the same query. -/
  between : List Event := []
  /-- Until the transaction. -/
  after : List Event := []
  /-- The database fails: nothing is committed. -/
  fault : Option String := none

namespace Turn

variable (t : Turn) (s : State)

/-- The state the transaction is run in. -/
def reach : State :=
  machine.runFrom (machine.runFrom (machine.runFrom s t.before) t.between) t.after

/-- The versions the query reads: those that are current. -/
def readAt : ReadAt where
  attemptAt := (machine.runFrom s t.before).past.length
  runAt := (machine.runFrom (machine.runFrom s t.before) t.between).past.length

/-- `RunLifecycleService.handleLeaseExpired`, with the state it leaves. -/
def handle : Except ServiceError State :=
  match t.fault with
  | some name => .error (.external name)
  | none =>
    match (Request.leaseExpired t.id (t.readAt s)).prepare (t.reach s) t.env with
    | .error e => .error e
    | .ok none => .ok (t.reach s)
    | .ok (some tx) =>
      match (t.reach s).db.transact t.env tx.runId tx.body with
      | .error e => .error e
      | .ok db => .ok ((t.reach s).commit db)

/-- The handling throws. -/
def throws : Bool :=
  match t.handle s with
  | .error _ => true
  | .ok _ => false

/-- The lease is still expired when the transaction is run. -/
def stillExpired : Bool :=
  ((t.reach s).db.attempt? t.id).any (leaseLost ((t.reach s).db.context t.env t.id.runId))

/-- The handling of the attempt as things stand. -/
def still : Turn := { t with before := [], between := [], after := [] }

end Turn

/-! ## The scan -/

/-- The loop of `tick`: the state it leaves, and what it throws. -/
def tick (s : State) : List Turn → State × Option ServiceError
  | [] => (s, none)
  | t :: rest =>
    match t.handle s with
    | .ok s' => tick s' rest
    | .error e => (t.reach s, some e)

/-- **What a scan fetches**: at most 20 attempts that execute under a lease
that has run out, in any order. -/
structure Scan (s : State) where
  now : Time
  turns : List Turn
  nodup : (turns.map (·.id)).Nodup
  length_le : turns.length ≤ 20
  found : ∀ t ∈ turns, ∃ a, s.db.attempt? t.id = some a ∧
    (a.status = .claimed ∨ a.status = .running) ∧ a.leaseExpiresAt.any fun expires => expires < now

/-- **An attempt is recovered** between two states: it is marked
`LEASE_EXPIRED`, its run is interrupted, and the policy is applied to that. -/
def Recovered (id : AttemptId) (s s' : State) : Prop :=
  ∃ (r marked r' : RunRows) (ctx : Context) (no : ℕ),
    s.db.runs[id.runId]? = some r ∧ s'.db.runs[id.runId]? = some r' ∧
    r.core.Executing id.index no ∧
    marked.core = { r.core.endAttempt id.index no .leaseExpired with status := .interrupted } ∧
    applyPolicy ctx id.index no .workerLost marked = .ok r' ∧
    r'.core.attempts[id.index]? = some ⟨no, .leaseExpired⟩

/-- An attempt of the scan: its handling, or, once the scan has ended, the
one it would have had then. -/
def Turn.given (t : Turn) (so : State × Option ServiceError) : Turn :=
  match so.2 with
  | none => t
  | some _ => t.still

/-- **The scan recovers every attempt it should**: every one whose lease is
still expired, unless its own handling throws. -/
def RecoversAll (s : State) (turns : List Turn) : Prop :=
  ∀ pre t post, turns = pre ++ t :: post →
    ((t.given (tick s pre)).stillExpired (tick s pre).1 = true →
      (t.given (tick s pre)).throws (tick s pre).1 = false →
      Recovered t.id ((t.given (tick s pre)).reach (tick s pre).1) (tick s (pre ++ [t])).1)

/-- An attempt stands behind one whose handling throws, although its lease
is still expired then and its own handling would not throw. -/
def LeftBehind (s : State) (turns : List Turn) : Prop :=
  ∃ pre t mid u post, turns = pre ++ t :: mid ++ u :: post ∧
    (tick s pre).2 = none ∧ t.throws (tick s pre).1 = true ∧
    u.still.stillExpired (t.reach (tick s pre).1) = true ∧
    u.still.throws (t.reach (tick s pre).1) = false

/-! ## How a scan goes on -/

section

variable {s s' : State} {t : Turn}

theorem tick_cons_of_ok (h : t.handle s = .ok s') (rest : List Turn) :
    tick s (t :: rest) = tick s' rest := by
  simp only [tick, h]

theorem tick_cons_of_error {e : ServiceError} (h : t.handle s = .error e) (rest : List Turn) :
    tick s (t :: rest) = (t.reach s, some e) := by
  simp only [tick, h]

/-- What a handling throws, or the state it leaves. -/
theorem Turn.throws_eq_true : t.throws s = true ↔ ∃ e, t.handle s = .error e := by
  unfold throws
  cases t.handle s with
  | ok s' => simp
  | error e => simp

theorem Turn.throws_eq_false : t.throws s = false ↔ ∃ s', t.handle s = .ok s' := by
  unfold throws
  cases t.handle s with
  | ok s' => simp
  | error e => simp

/-- **A scan in two parts**: the second is looked at where the first has not
ended. -/
theorem tick_append_eq (pre rest : List Turn) :
    tick s (pre ++ rest) =
      if (tick s pre).2 = none then tick (tick s pre).1 rest else tick s pre := by
  induction pre generalizing s with
  | nil => rfl
  | cons t pre ih =>
    cases hhandle : t.handle s with
    | ok s' =>
      rw [List.cons_append, tick_cons_of_ok hhandle, tick_cons_of_ok hhandle]
      exact ih
    | error e =>
      rw [List.cons_append, tick_cons_of_error hhandle, tick_cons_of_error hhandle]
      simp

/-- A scan that has not ended goes on. -/
theorem tick_append {pre : List Turn} (h : (tick s pre).2 = none) (rest : List Turn) :
    tick s (pre ++ rest) = tick (tick s pre).1 rest := by
  rw [tick_append_eq, if_pos h]

/-- A scan that has ended stays where it is. -/
theorem tick_append_of_some {pre : List Turn} {e : ServiceError} (h : (tick s pre).2 = some e)
    (rest : List Turn) : tick s (pre ++ rest) = tick s pre := by
  rw [tick_append_eq, if_neg (by simp [h])]

theorem tick_of_throws {pre : List Turn} (hpre : (tick s pre).2 = none)
    (ht : t.throws (tick s pre).1 = true) (mid : List Turn) :
    ∃ e, tick s (pre ++ t :: mid) = (t.reach (tick s pre).1, some e) := by
  obtain ⟨e, he⟩ := Turn.throws_eq_true.mp ht
  refine ⟨e, ?_⟩
  rw [tick_append hpre]
  exact tick_cons_of_error he mid

/-- **A scan that has ended has met an attempt whose handling throws.** -/
theorem exists_throws {pre : List Turn} {e : ServiceError} (h : (tick s pre).2 = some e) :
    ∃ front t mid, pre = front ++ t :: mid ∧ (tick s front).2 = none ∧
      t.throws (tick s front).1 = true := by
  induction pre generalizing s with
  | nil => cases h
  | cons t pre ih =>
    cases hhandle : t.handle s with
    | error e' => exact ⟨[], t, pre, rfl, rfl, Turn.throws_eq_true.mpr ⟨e', hhandle⟩⟩
    | ok s' =>
      rw [tick_cons_of_ok hhandle] at h
      obtain ⟨front, u, mid, hpre, hfront, hu⟩ := ih h
      refine ⟨t :: front, u, mid, by rw [hpre]; rfl, ?_, ?_⟩
      · rw [tick_cons_of_ok hhandle]
        exact hfront
      · rw [tick_cons_of_ok hhandle]
        exact hu

/-! ## A scan is a run of the control plane -/

/-- A handling that does not throw is a request, after all that happened
until it. -/
theorem Turn.handle_eq_ok (h : t.handle s = .ok s') : ∃ es, s' = machine.runFrom s es := by
  unfold handle at h
  have hreach : t.reach s = machine.runFrom s (t.before ++ t.between ++ t.after) := by
    rw [machine.runFrom_append, machine.runFrom_append]
    rfl
  split at h
  · exact absurd h (by simp)
  · split at h
    · exact absurd h (by simp)
    · exact ⟨_, (Except.ok.inj h).symm.trans hreach⟩
    · rename_i tx hprep
      split at h
      · exact absurd h (by simp)
      · rename_i db htx
        refine ⟨t.before ++ t.between ++ t.after ++
          [.request t.env (.leaseExpired t.id (t.readAt s))], ?_⟩
        have hcommit : (Event.request t.env (.leaseExpired t.id (t.readAt s))).commit? (t.reach s) =
            some db := by
          show Request.commit? _ _ _ = _
          unfold Request.commit?
          rw [hprep]
          show ((t.reach s).db.transact t.env tx.runId tx.body).toOption = some db
          rw [htx]
          rfl
        rw [machine.runFrom_append, ← hreach, ← Except.ok.inj h]
        show (t.reach s).commit db = step (t.reach s) _
        unfold step
        rw [hcommit]
        show _ = { (t.reach s).commit db with granted := (t.reach s).granted ++ [] }
        rw [List.append_nil]
        rfl

theorem tick_eq_runFrom (pre : List Turn) : ∃ es, (tick s pre).1 = machine.runFrom s es := by
  induction pre generalizing s with
  | nil => exact ⟨[], rfl⟩
  | cons t pre ih =>
    cases hhandle : t.handle s with
    | error e =>
      rw [tick_cons_of_error hhandle]
      refine ⟨t.before ++ t.between ++ t.after, ?_⟩
      rw [machine.runFrom_append, machine.runFrom_append]
      rfl
    | ok s' =>
      rw [tick_cons_of_ok hhandle]
      obtain ⟨es, hes⟩ := Turn.handle_eq_ok hhandle
      obtain ⟨fs, hfs⟩ := ih (s := s')
      refine ⟨es ++ fs, ?_⟩
      rw [machine.runFrom_append, ← hes]
      exact hfs

/-- The versions of an earlier state keep their places. -/
theorem versions_extend (s : State) (es : List Event) :
    s.versions <+: (machine.runFrom s es).versions := by
  induction es generalizing s with
  | nil => exact List.prefix_rfl
  | cons e es ih =>
    refine List.IsPrefix.trans ?_ (ih (machine.step s e))
    show s.versions <+: (step s e).versions
    unfold step
    split
    · exact List.prefix_append _ _
    · exact List.prefix_rfl

/-- What was the database is read as its version afterwards. -/
theorem runAt_after (s : State) (es : List Event) (id : RunId) :
    (machine.runFrom s es).runAt s.past.length id = s.db.runs[id]? := by
  have hversion : s.versions[s.past.length]? = some s.db := by simp [State.versions]
  obtain ⟨tail, htail⟩ := versions_extend s es
  unfold State.runAt
  rw [← htail, List.getElem?_append_left (List.getElem?_eq_some_iff.mp hversion).1, hversion]
  rfl

/-! ## The handling of an attempt that is still expired -/

theorem PolicyOutcome.attempts_eq {i no : ℕ} {c d : RunCore} (h : PolicyOutcome i no c d) :
    d.attempts = c.attempts := by
  cases h <;> rfl

/-- The transaction on an attempt whose lease is lost marks it and applies
the policy. -/
theorem handleLeaseExpired_of_leaseLost {ctx : Context} {seen r r' : RunRows} {i no : ℕ} {a : Attempt}
    (hinv : r.core.StatusInv) (hfrozen : r.core.BudgetFrozen) (hcap : Captured seen r i no)
    (ha : r.attempts[i]? = some a) (hlost : leaseLost ctx a = true)
    (h : handleLeaseExpired ctx seen i no r = .ok r') :
    ∃ marked : RunRows, r.core.Executing i no ∧
      marked.core = { r.core.endAttempt i no .leaseExpired with status := .interrupted } ∧
      applyPolicy ctx i no .workerLost marked = .ok r' ∧
      r'.core.attempts[i]? = some ⟨no, .leaseExpired⟩ := by
  have hi := executing_of_leaseLost hinv ha hlost
  rw [hcap.no_eq a ha] at hi
  unfold handleLeaseExpired at h
  rw [ha] at h
  simp only [hlost, if_true, bind_eq_ok] at h
  obtain ⟨marked, h₁, h₂⟩ := h
  have hcore := interruptSeen_core hcap hi h₁
  rw [RunRows.core_endAttempt hi] at hcore
  refine ⟨marked, hi, hcore, h₂, ?_⟩
  have htask : marked.core.task = .running := by
    rw [hcore]
    exact hinv.task_running (hinv.executing hi).2
  rw [(applyPolicy_outcome (by rw [hcore]; exact hfrozen) htask h₂).attempts_eq, hcore]
  have hlt := (List.getElem?_eq_some_iff.mp hi).1
  show (r.core.attempts.set i _)[i]? = _
  rw [List.getElem?_set_self hlt]

theorem Sound.after (h : Sound s) (es : List Event) : Sound (machine.runFrom s es) :=
  machine.runFrom_stable (fun _ e h => h.step e) h es

/-- What the query of a handling reads of an attempt the scan found. -/
theorem Turn.read_eq (h : Sound s) {r : RunRows} (hr : s.db.runs[t.id.runId]? = some r)
    (hlt : t.id.index < r.core.attempts.length) :
    ∃ a seen, (t.reach s).read (t.readAt s) t.id = some (a, seen) ∧
      ∀ r' no, (t.reach s).db.runs[t.id.runId]? = some r' → r'.core.Executing t.id.index no →
        a.status = .running := by
  have hsound := h.after t.before
  obtain ⟨r₁, hr₁, hlater₁⟩ := h.rows_after hr t.before
  obtain ⟨r₂, hr₂, -⟩ := hsound.rows_after hr₁ t.between
  obtain ⟨r₃, hr₃, hlater₃⟩ := hsound.rows_after hr₁ (t.between ++ t.after)
  have hreach : t.reach s = machine.runFrom (machine.runFrom s t.before) (t.between ++ t.after) :=
    (machine.runFrom_append _ _ _).symm
  have hlt₁ : t.id.index < r₁.core.attempts.length := hlt.trans_le hlater₁.length_le
  obtain ⟨a, ha⟩ : ∃ a, r₁.attempts[t.id.index]? = some a := by
    have hlen : r₁.core.attempts.length = r₁.attempts.length := List.length_map _
    rw [hlen] at hlt₁
    exact ⟨_, List.getElem?_eq_getElem hlt₁⟩
  refine ⟨a, r₂, ?_, ?_⟩
  · have hle : (t.readAt s).attemptAt ≤ (t.readAt s).runAt := by
      have hlen := (versions_extend (machine.runFrom s t.before) t.between).length_le
      simp only [State.versions, List.length_append, List.length_singleton] at hlen
      show (machine.runFrom s t.before).past.length ≤
        (machine.runFrom (machine.runFrom s t.before) t.between).past.length
      omega
    have hbefore : (t.reach s).runAt (t.readAt s).attemptAt t.id.runId = some r₁ := by
      rw [hreach]
      exact (runAt_after _ _ _).trans hr₁
    have hrun : (t.reach s).runAt (t.readAt s).runAt t.id.runId = some r₂ :=
      (runAt_after _ t.after _).trans hr₂
    unfold State.read
    rw [if_pos hle, hbefore, hrun]
    simp [ha]
  · intro r' no hr' hi
    rw [hreach, hr₃] at hr'
    rw [← Option.some.inj hr'] at hi
    have hi₁ := hlater₃.executing hlt₁ hi
    have hstate : some a.state = some ⟨no, .running⟩ := by
      rw [← hi₁, RunRows.core_attempts_getElem?, ha]
      rfl
    exact congrArg AttemptState.status (Option.some.inj hstate)

/-- **A handling that does not throw recovers an attempt whose lease is
still expired.** -/
theorem Turn.recovered (h : Sound s) {r : RunRows} (hr : s.db.runs[t.id.runId]? = some r)
    (hlt : t.id.index < r.core.attempts.length) (hexpired : t.stillExpired s = true)
    (hok : t.handle s = .ok s') : Recovered t.id (t.reach s) s' := by
  have hsound : Sound (t.reach s) := ((h.after t.before).after t.between).after t.after
  obtain ⟨a, seen, hread, hrunning⟩ := t.read_eq h hr hlt
  obtain ⟨b, hb, hlost⟩ := (Option.any_eq_true _ _).mp hexpired
  obtain ⟨r₃, hr₃, hb₃⟩ := Option.bind_eq_some_iff.mp hb
  obtain ⟨hinv, hfrozen⟩ := hsound.rows hr₃
  have hi := executing_of_leaseLost hinv hb₃ hlost
  have hprep : (Request.leaseExpired t.id (t.readAt s)).prepare (t.reach s) t.env =
      .ok (some ⟨t.id.runId, fun ctx => handleLeaseExpired ctx seen t.id.index a.no⟩) := by
    have hrun := hrunning r₃ b.no hr₃ hi
    simp [Request.prepare, hread, hrun, pure, Except.pure]
  unfold handle at hok
  split at hok
  · exact absurd hok (by simp)
  · simp only [hprep] at hok
    split at hok
    · exact absurd hok (by simp)
    · rename_i db htx
      simp only [Database.transact, bind_eq_ok, orThrow_eq_ok, pure_eq_ok] at htx
      obtain ⟨r₃', hr₃', r', hbody, rfl⟩ := htx
      rw [hr₃] at hr₃'
      obtain rfl := Option.some.inj hr₃'
      obtain ⟨marked, hi', hmarked, hpolicy, hended⟩ := handleLeaseExpired_of_leaseLost hinv hfrozen
        (hsound.captured hread hr₃) hb₃ hlost hbody
      refine ⟨r₃, marked, r', _, a.no, hr₃, ?_, hi', hmarked, hpolicy, hended⟩
      rw [← Except.ok.inj hok]
      show ((t.reach s).db.runs.set t.id.runId r')[t.id.runId]? = some r'
      rw [List.getElem?_set_self (List.getElem?_eq_some_iff.mp hr₃).1]

/-! ## When a scan recovers what it should -/

/-- What a scan found is there in every state it comes to. -/
theorem Scan.found_after {s : State} (scan : Scan s) (h : Sound s) {t : Turn} (ht : t ∈ scan.turns)
    (pre : List Turn) :
    Sound (tick s pre).1 ∧ ∃ r : RunRows, (tick s pre).1.db.runs[t.id.runId]? = some r ∧
      t.id.index < r.core.attempts.length := by
  obtain ⟨es, hes⟩ := tick_eq_runFrom (s := s) pre
  rw [hes]
  obtain ⟨a, ha, -⟩ := scan.found t ht
  obtain ⟨r, hr, hindex⟩ := Option.bind_eq_some_iff.mp ha
  obtain ⟨r', hr', hlater⟩ := h.rows_after hr es
  have hlt : t.id.index < r.core.attempts.length := by
    have hlen : r.core.attempts.length = r.attempts.length := List.length_map _
    rw [hlen]
    exact (List.getElem?_eq_some_iff.mp hindex).1
  exact ⟨h.after es, r', hr', hlt.trans_le hlater.length_le⟩

/-- An attempt that is left behind stays as it is. -/
theorem LeftBehind.not_recoversAll {s : State} {turns : List Turn} (h : LeftBehind s turns) :
    ¬ RecoversAll s turns := by
  obtain ⟨pre, t, mid, u, post, hturns, hpre, ht, hexpired, hok⟩ := h
  intro hall
  obtain ⟨e, he⟩ := tick_of_throws hpre ht mid
  have hend : (tick s (pre ++ t :: mid)).2 = some e := by rw [he]
  have hgiven : u.given (tick s (pre ++ t :: mid)) = u.still := by
    unfold Turn.given
    rw [hend]
  have hrec := hall (pre ++ t :: mid) u post (by rw [hturns])
  rw [hgiven, tick_append_of_some hend [u], he] at hrec
  obtain ⟨r, marked, r', ctx, no, hr, hr', hi, -, -, hmarked⟩ := hrec hexpired hok
  have hsame : some r = some r' := hr.symm.trans hr'
  rw [← Option.some.inj hsame, hi] at hmarked
  exact absurd (congrArg AttemptState.status (Option.some.inj hmarked)) (by simp)

/-- **A scan recovers every attempt it should exactly if none is left
behind** one whose handling throws. -/
theorem recoversAll_iff (es : List Event) (scan : Scan (machine.run es)) :
    RecoversAll (machine.run es) scan.turns ↔ ¬ LeftBehind (machine.run es) scan.turns := by
  have hsound := sound_of_reachable (machine.reachable_run es)
  constructor
  · intro hall hleft
    exact hleft.not_recoversAll hall
  · intro hnone pre t post hturns hexpired hok
    have ht : t ∈ scan.turns := by rw [hturns]; simp
    obtain ⟨hs, r, hr, hlt⟩ := scan.found_after hsound ht pre
    cases hend : (tick (machine.run es) pre).2 with
    | none =>
      have hgiven : t.given (tick (machine.run es) pre) = t := by
        unfold Turn.given
        rw [hend]
      rw [hgiven] at hexpired hok ⊢
      obtain ⟨s', hs'⟩ := Turn.throws_eq_false.mp hok
      rw [tick_append hend, tick_cons_of_ok hs']
      exact t.recovered hs hr hlt hexpired hs'
    | some e =>
      -- The scan had ended before this attempt, at one that stands ahead of it.
      have hgiven : t.given (tick (machine.run es) pre) = t.still := by
        unfold Turn.given
        rw [hend]
      rw [hgiven] at hexpired hok
      obtain ⟨front, u, mid, rfl, hfront, hu⟩ := exists_throws hend
      obtain ⟨e', he'⟩ := tick_of_throws hfront hu mid
      rw [he'] at hexpired hok
      exact absurd ⟨front, u, mid, t, post, hturns, hfront, hu, hexpired, hok⟩ hnone

end

/-! ## A fixture that is gone -/

/-- The registry when a repository of fixtures was still there. -/
def loadedFixtures : FixtureRegistry where
  find id := if id = "py-1" then some { fakeFixture with id := "py-1" } else builtinFixtures.find id
  id_of_find := by
    intro id fixture h
    split at h
    · rename_i hid
      rw [← Option.some.inj h, hid]
    · exact builtinFixtures.id_of_find h

/-- Two runs are claimed; the first was created with a fixture that is not
registered any more. -/
def twoClaimed : List Event := [
  .createTask { envAt 0 with fixtures := loadedFixtures, resolve := fun _ _ => some "base" }
    { fixtureId := "py-1", agentKind := .selfLanggraph },
  .createTask (envAt 0) { fixtureId := "fake", agentKind := .selfLanggraph },
  claimAt 1000 0 1 2,
  claimAt 1000 1 1 3]

/-- What the scan finds once both leases have run out. -/
def twoExpired : Scan (machine.run twoClaimed) where
  now := 40000
  turns := [{ id := ⟨0, 0⟩, env := envAt 40000 }, { id := ⟨1, 0⟩, env := envAt 40000 }]
  nodup := by decide
  length_le := by decide
  found := by
    intro t ht
    simp only [List.mem_cons, List.not_mem_nil, or_false] at ht
    rcases ht with rfl | rfl
    · exact ⟨_, rfl, .inr rfl, by decide⟩
    · exact ⟨_, rfl, .inr rfl, by decide⟩

/-- The first attempt's fixture is not found, and the second attempt is
left running. -/
theorem twoExpired_not_recoversAll : ¬ RecoversAll (machine.run twoClaimed) twoExpired.turns := by
  refine LeftBehind.not_recoversAll ⟨[], { id := ⟨0, 0⟩, env := envAt 40000 }, [],
    { id := ⟨1, 0⟩, env := envAt 40000 }, [], rfl, rfl, ?_, ?_, ?_⟩
  · decide
  · decide
  · decide

end ControlPlane

end AgentReliability
