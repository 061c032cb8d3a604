import AgentReliability.ControlPlane.Clock
import AgentReliability.ControlPlane.Dispatch
/-!
# The time ledger of a snapshot run

A snapshot run pays for the seconds its attempts executed, each from its
claim to the time the charge was made, and for the backoffs that were
granted, and for nothing else. The interval of an attempt is closed in one
of several places, and the claim reads the run before its transaction: the
ledger says that each interval is charged once all the same, over the claims
and the ends that committed. The charge reads the clock anew, so what is
charged is not the interval up to `endedAt`.
-/

namespace AgentReliability

namespace ControlPlane

/-! ## The claims of a run -/

/-- The time at which a run is claimed by an event, if the claim commits. -/
def Event.claimTimes (id : RunId) (s : State) (e : Event) : List Time :=
  match e with
  | .request env (.claim input _ _) =>
    if input.runId = id ∧ (e.commit? s).isSome then [env.now] else []
  | _ => []

/-- **The times at which a run was claimed**, in order. -/
def claimTimes (id : RunId) (es : List Event) : List Time :=
  machine.gather (Event.claimTimes id) machine.init es

/-- An event that starts no attempt is no claim. -/
theorem Event.claimTimes_of_starts {id : RunId} {s : State} {e : Event}
    (h : e.writer.starts = []) : e.claimTimes id s = [] := by
  cases e with
  | request env req =>
    cases req with
    | claim input runAt attemptAt => exact absurd h (List.cons_ne_nil _ _)
    | _ => rfl
  | _ => rfl

/-- **What a claim does to the runs**: nothing, or it claims the one it
names. -/
theorem claim_step {s : State} {env : Env} {input : ClaimInput} {runAt attemptAt : ℕ} {id : RunId}
    {r' : RunRows} {e : Event} (he : e = .request env (.claim input runAt attemptAt))
    (hr' : (step s e).db.runs[id]? = some r') :
    (s.db.runs[id]? = some r' ∧ e.claimTimes id s = []) ∨
      ∃ seen r, input.runId = id ∧ s.runAt runAt id = some seen ∧
        seen.run.status = .dispatched ∧ s.db.runs[id]? = some r ∧
        claimAttempt (s.db.context env id) seen input r = .ok r' ∧ e.claimTimes id s = [env.now] := by
  subst he
  cases hc : (Event.request env (.claim input runAt attemptAt)).commit? s with
  | none =>
    rw [step_of_not_commit hc] at hr'
    refine .inl ⟨hr', if_neg fun h => ?_⟩
    rw [hc] at h
    exact absurd h.2 (by simp)
  | some db =>
    obtain ⟨seen, r, r₁, ⟨hseen, hstatus⟩, hr, hclaim, hdb⟩ := claim_commit_seen hc
    have hstep : (step s (.request env (.claim input runAt attemptAt))).db = db := by
      unfold step
      rw [hc]
      rfl
    rw [hstep, hdb] at hr'
    by_cases hid : input.runId = id
    · subst hid
      rw [List.getElem?_set_self (List.getElem?_eq_some_iff.mp hr).1] at hr'
      obtain rfl := Option.some.inj hr'
      exact .inr ⟨seen, r, rfl, hseen, hstatus, hr, hclaim, if_pos ⟨rfl, by rw [hc]; rfl⟩⟩
    · rw [List.getElem?_set_ne hid] at hr'
      exact .inl ⟨hr', if_neg fun h => hid h.1⟩

/-! ## The ends of its attempts -/

instance : DecidablePred RunClock.Idle := fun c =>
  inferInstanceAs (Decidable (∀ a ∈ c.attempts, a.status ≠ .running))

/-- The time an event charges a run up to, if it ends the attempt that
executes. -/
def Event.chargeTimes (id : RunId) (s : State) (e : Event) : List Time :=
  match e.env?, s.db.runs[id]?, (step s e).db.runs[id]? with
  | some env, some r, some r' =>
    if ¬ r.clock.Idle ∧ r'.clock.Idle then [env.chargedAt] else []
  | _, _, _ => []

/-- **The times a run was charged up to**, in the order its attempts
ended. -/
def chargeTimes (id : RunId) (es : List Event) : List Time :=
  machine.gather (Event.chargeTimes id) machine.init es

/-- A run that was not there is charged for nothing. -/
theorem Event.chargeTimes_of_absent {id : RunId} {s : State} (h : s.db.runs[id]? = none)
    (e : Event) : e.chargeTimes id s = [] := by
  unfold Event.chargeTimes
  rw [h]
  cases e.env? <;> rfl

/-- Neither is a run in which no attempt ended. -/
theorem Event.chargeTimes_of_kept {id : RunId} {s : State} {e : Event} {r r' : RunRows}
    (hr : s.db.runs[id]? = some r) (hr' : (step s e).db.runs[id]? = some r')
    (h : r'.clock.Idle → r.clock.Idle) : e.chargeTimes id s = [] := by
  unfold Event.chargeTimes
  rw [hr, hr']
  cases e.env? with
  | none => rfl
  | some env => exact if_neg fun hends => hends.1 (h hends.2)

/-! ## The ledger -/

/-- What the attempts are charged: each from its claim on. -/
def chargedSeconds (claims charges : List Time) : ℤ :=
  (List.zipWith (fun claimed charged => ceilSeconds (charged - claimed)) claims charges).sum

/-- What the decisions are charged. The attempt at position `i` has number
`i + 1`. -/
def backoffSeconds (maxAttempts : ℕ) (decisions : List PolicyDecision) : ℤ :=
  (decisions.map fun d => d.backoff maxAttempts (d.attemptId.index + 1)).sum

/-- **The clock of a run is exact** over the times its attempts were
claimed at, and the times they were charged up to. -/
structure TimeLedger (claims charges : List Time) (c : RunClock) : Prop where
  /-- Each attempt has a claim, and the attempts are numbered `1..n`. -/
  claimed : claims.length = c.attempts.length
  numbered : c.attempts.map (·.no) = List.range' 1 c.attempts.length
  /-- An attempt has an end unless it executes. -/
  ended : ∀ a ∈ c.attempts, a.endedAt = none ↔ a.status = .running
  /-- Each attempt that has ended was charged for, once. -/
  charged : charges.length = c.attempts.countP (·.status ≠ .running)
  /-- The clock runs while an attempt executes, from its claim on. -/
  started_iff : c.startedAt.isSome ↔ ∃ a ∈ c.attempts, a.status = .running
  started : ∀ (i : ℕ) (a : AttemptClock), c.attempts[i]? = some a → a.status = .running →
    c.startedAt = claims[i]?
  usedSeconds : c.usedSeconds =
    chargedSeconds claims charges + backoffSeconds c.maxAttempts c.decisions

/-- A claim is charged for once its attempt ends. -/
theorem chargedSeconds_claim {claims charges : List Time} (t : Time)
    (h : claims.length = charges.length) :
    chargedSeconds (claims ++ [t]) charges = chargedSeconds claims charges := by
  unfold chargedSeconds
  rw [← List.append_nil charges, List.zipWith_append h]
  simp

theorem chargedSeconds_concat {claims charges : List Time} (t charged : Time)
    (h : claims.length = charges.length) :
    chargedSeconds (claims ++ [t]) (charges ++ [charged]) =
      chargedSeconds claims charges + ceilSeconds (charged - t) := by
  unfold chargedSeconds
  rw [List.zipWith_append h, List.sum_append_int]
  simp

/-- Without an executing attempt all have ended. -/
theorem countP_of_idle {attempts : List AttemptClock} (h : ∀ a ∈ attempts, a.status ≠ .running) :
    attempts.countP (·.status ≠ .running) = attempts.length :=
  List.countP_eq_length.mpr fun a ha => decide_eq_true (h a ha)

theorem backoffSeconds_append (maxAttempts : ℕ) (decisions decisions' : List PolicyDecision) :
    backoffSeconds maxAttempts (decisions ++ decisions') =
      backoffSeconds maxAttempts decisions + backoffSeconds maxAttempts decisions' := by
  unfold backoffSeconds
  rw [List.map_append, List.sum_append_int]

namespace TimeLedger

variable {claims charges : List Time} {c d : RunClock} {now charged : Time}

/-- Without an executing attempt the clock is stopped. -/
theorem stopped_of_idle (h : TimeLedger claims charges c) (hidle : c.Idle) : c.startedAt = none := by
  rw [← Option.not_isSome_iff_eq_none, h.started_iff]
  rintro ⟨a, ha, hrun⟩
  exact hidle a ha hrun

/-- A ledger whose clock is stopped and whose attempts have all ended. -/
theorem of_idle (hclaimed : claims.length = c.attempts.length)
    (hnumbered : c.attempts.map (·.no) = List.range' 1 c.attempts.length)
    (hended : ∀ a ∈ c.attempts, a.endedAt ≠ none ∧ a.status ≠ .running)
    (hcharged : charges.length = c.attempts.length) (hstopped : c.startedAt = none)
    (hused : c.usedSeconds =
      chargedSeconds claims charges + backoffSeconds c.maxAttempts c.decisions) :
    TimeLedger claims charges c where
  claimed := hclaimed
  numbered := hnumbered
  ended := fun a ha => iff_of_false (hended a ha).1 (hended a ha).2
  charged := by rw [countP_of_idle fun a ha => (hended a ha).2, hcharged]
  started_iff := by
    rw [hstopped]
    refine iff_of_false (by simp) ?_
    rintro ⟨a, ha, hrun⟩
    exact (hended a ha).2 hrun
  started := fun i a ha hrun => absurd hrun (hended a (List.mem_of_getElem? ha)).2
  usedSeconds := hused

/-- **A claim starts the clock.** -/
theorem claim (h : TimeLedger claims charges c) (hidle : c.Idle) {no : ℕ}
    (hno : no = c.attempts.length + 1) :
    TimeLedger (claims ++ [now]) charges { c with
      status := .running
      startedAt := some now
      attempts := c.attempts ++ [⟨no, .running, none⟩] } where
  claimed := by simp [h.claimed]
  numbered := by
    rw [List.map_append, h.numbered, List.length_append, List.length_singleton, List.range'_1_concat]
    simp [hno, Nat.add_comm]
  ended := by
    intro a ha
    rcases List.mem_append.mp ha with ha | ha
    · exact h.ended a ha
    · obtain rfl := List.mem_singleton.mp ha
      exact iff_of_true rfl rfl
  charged := by
    rw [List.countP_append, ← h.charged]
    rfl
  started_iff := iff_of_true rfl ⟨⟨no, .running, none⟩, by simp, rfl⟩
  started := by
    intro i a ha hrun
    rcases getElem?_append_one ha with hold | ⟨rfl, -⟩
    · exact absurd hrun (hidle a (List.mem_of_getElem? hold))
    · rw [← h.claimed]
      simp
  usedSeconds := by
    have hall : claims.length = charges.length := by
      rw [h.claimed, h.charged, countP_of_idle hidle]
    rw [chargedSeconds_claim _ hall]
    exact h.usedSeconds

/-- **The end of an attempt stops the clock**, and charges for it once. -/
theorem stop (h : TimeLedger claims charges c) {before : List AttemptClock} {a : AttemptClock}
    {ended : AttemptStatus} {status : RunStatus} {usedSeconds : ℤ}
    {decisions : List PolicyDecision} {commands : List RunCommand}
    (hattempts : c.attempts = before ++ [a]) (hrunning : a.status = .running)
    (hbefore : ∀ x ∈ before, x.status ≠ .running) (hended : ended ≠ .running)
    (hused : usedSeconds = c.usedSeconds + c.activeSeconds charged +
      (decisions.map (·.backoff c.maxAttempts a.no)).sum)
    (hdecisions : ∀ d ∈ decisions, d.attemptId.index = before.length) :
    TimeLedger claims (charges ++ [charged]) { c with
      status, startedAt := none, usedSeconds
      attempts := before ++ [{ a with status := ended, endedAt := some now }]
      decisions := c.decisions ++ decisions
      commands := c.commands ++ commands } := by
  -- The attempt that ends is the last, and so is the time it was claimed at.
  have hlength : claims.length = before.length + 1 := by simp [h.claimed, hattempts]
  obtain ⟨earlier, t, rfl⟩ : ∃ earlier t, claims = earlier ++ [t] := by
    rcases List.eq_nil_or_concat claims with rfl | ⟨earlier, t, rfl⟩
    · simp at hlength
    · exact ⟨earlier, t, List.concat_eq_append⟩
  have hearlier : earlier.length = before.length := by simpa using hlength
  have hat : c.attempts[before.length]? = some a := by rw [hattempts]; simp
  have hstarted : c.startedAt = some t := by
    rw [h.started before.length a hat hrunning, ← hearlier]
    simp
  have hcharges : charges.length = before.length := by
    rw [h.charged, hattempts, List.countP_append, countP_of_idle hbefore]
    simp [hrunning]
  have hno : a.no = before.length + 1 := by
    have hnumbered := congrArg (·[before.length]?) h.numbered
    simp only [hattempts, List.map_append, List.map_singleton, List.length_append,
      List.length_singleton] at hnumbered
    rw [List.getElem?_range' (by omega), List.getElem?_append_right (by simp)] at hnumbered
    simp at hnumbered
    omega
  have hbackoff : (decisions.map (·.backoff c.maxAttempts a.no)).sum =
      backoffSeconds c.maxAttempts decisions := by
    unfold backoffSeconds
    refine congrArg List.sum (List.map_congr_left fun d hd => ?_)
    rw [hno, hdecisions d hd]
  refine of_idle ?_ ?_ ?_ ?_ rfl ?_
  · simpa using hlength
  · have hnumbered := h.numbered
    rw [hattempts] at hnumbered
    simpa using hnumbered
  · intro x hx
    rcases List.mem_append.mp hx with hx | hx
    · have hmem : x ∈ c.attempts := by rw [hattempts]; exact List.mem_append_left _ hx
      exact ⟨fun hnone => hbefore x hx ((h.ended x hmem).mp hnone), hbefore x hx⟩
    · obtain rfl := List.mem_singleton.mp hx
      exact ⟨by simp, hended⟩
  · simp [hcharges]
  · -- The open interval is closed here, and each decision is charged as it is recorded.
    have hclosed : c.activeSeconds charged = ceilSeconds (charged - t) := by
      unfold RunClock.activeSeconds
      rw [hstarted]
    have heven : earlier.length = charges.length := hearlier.trans hcharges.symm
    have hledger := h.usedSeconds
    rw [chargedSeconds_claim _ heven] at hledger
    change usedSeconds = chargedSeconds _ _ + backoffSeconds c.maxAttempts (c.decisions ++ decisions)
    rw [chargedSeconds_concat _ _ heven, backoffSeconds_append, hused, hclosed, hbackoff, hledger]
    omega

/-- **Every step keeps the ledger exact.** Only a claim adds an attempt,
and it is entered with the time it is made; the end of one is entered with
the time it is charged up to. -/
theorem step (h : TimeLedger claims charges c) (hsnapshot : c.snapshot.isSome)
    (hattempts : d.attempts.length = c.attempts.length) (hs : RunClock.Step now charged c d) :
    TimeLedger claims (charges ++ if ¬ c.Idle ∧ d.Idle then [charged] else []) d := by
  cases hs with
  | stay =>
    rw [if_neg fun hends => hends.1 hends.2, List.append_nil]
    exact h
  | claim => simp at hattempts
  | @stop before a ended status startedAt usedSeconds decisions commands hlast hrunning hbefore hended
      hstatus hnot hcharged hdecisions hcommands =>
    obtain ⟨rfl, hused⟩ := hcharged hsnapshot
    have hbusy : ¬ c.Idle := fun hidle => hidle a (by simp [hlast]) hrunning
    have hover : ∀ x ∈ before ++ [{ a with status := ended, endedAt := some now }],
        x.status ≠ .running := by
      intro x hx
      rcases List.mem_append.mp hx with hx | hx
      · exact hbefore x hx
      · rw [List.mem_singleton.mp hx]
        exact hended
    rw [if_pos ⟨hbusy, hover⟩]
    exact h.stop hlast hrunning hbefore hended hused hdecisions
  | cancel hidle =>
    have hstopped := h.stopped_of_idle hidle
    rw [if_neg fun hends => hends.1 hidle, List.append_nil]
    refine of_idle h.claimed h.numbered (fun a ha => ?_) ?_ rfl ?_
    · exact ⟨fun hnone => hidle a ha ((h.ended a ha).mp hnone), hidle a ha⟩
    · rw [h.charged, countP_of_idle hidle]
    · have hnothing : c.activeSeconds charged = 0 := by
        unfold RunClock.activeSeconds
        rw [hstopped]
      rw [hnothing, Int.add_zero]
      exact h.usedSeconds
  | resume hidle hstatus hcommand =>
    rw [if_neg fun hends => hends.1 hidle, List.append_nil]
    exact ⟨h.claimed, h.numbered, h.ended, h.charged, h.started_iff, h.started, h.usedSeconds⟩

end TimeLedger

/-! ## The runs of the machine -/

/-- Of a snapshot run, a stopped clock goes with idle attempts. -/
def Stopped (c : RunClock) : Prop := c.snapshot.isSome → c.Idle → c.startedAt = none

theorem Stopped.step {now charged : Time} {c d : RunClock} (h : Stopped c)
    (hs : RunClock.Step now charged c d) : Stopped d := by
  intro hsnapshot hidle
  cases hs with
  | stay => exact h hsnapshot hidle
  | claim => exact absurd rfl (hidle _ (List.mem_append_right _ (List.mem_singleton_self _)))
  | stop _ _ _ _ _ _ hcharged => exact (hcharged hsnapshot).1
  | cancel => rfl
  | resume => exact h hsnapshot hidle

theorem stopped_of_run (es : List Event) {id : RunId} {r : RunRows}
    (hr : (machine.run es).db.runs[id]? = some r) : Stopped r.clock :=
  rows_invariant (P := fun _ r => Stopped r.clock)
    (fun hcreates _ _ => hcreates.clock.2.2.1)
    (fun _ hinv hfrozen hP hrow => hP.step (hrow.clock hinv hfrozen)) es hr

/-- **A claim reads a stopped clock**, in whatever version it reads the
run. -/
theorem stopped_of_seen {es : List Event} {k : ℕ} {id : RunId} {seen r : RunRows}
    (hseen : (machine.run es).runAt k id = some seen) (hstatus : seen.run.status = .dispatched)
    (hr : (machine.run es).db.runs[id]? = some r) (hs : r.isSnapshot) :
    seen.run.activeStartedAt = none := by
  have hsound := sound_of_reachable (machine.reachable_run es)
  obtain ⟨v, hv, -, hvr⟩ := Sound.of_runAt hseen
  obtain ⟨x, hx, hlater⟩ := hsound.later_db hv _ _ hvr
  obtain rfl := Option.some.inj (hr.symm.trans hx)
  -- The version was the database of an earlier run of the machine.
  obtain ⟨fs, rfl⟩ := exists_run_of_version hv
  have hidle : seen.Idle :=
    (sound_of_reachable (machine.reachable_run fs)).rows hvr |>.1.idle (by rw [hstatus]; decide)
  refine stopped_of_run fs hvr ?_ hidle.clock
  change seen.core.snapshot.isSome
  rw [← hlater.snapshot]
  exact hs

theorem clock_numbered {r : RunRows} (hinv : r.core.StatusInv) :
    r.clock.attempts.map (·.no) = List.range' 1 r.clock.attempts.length := by
  have hnumbered := hinv.numbered
  simp only [RunRows.core, RunRows.clock, List.map_map, List.length_map] at hnumbered ⊢
  exact hnumbered

/-- What the machine keeps: the ledger of every snapshot run, and no claim
and no charge of a run that is not there. -/
structure TimeLedgers (es : List Event) : Prop where
  absent : ∀ id, (machine.run es).db.runs[id]? = none → claimTimes id es = [] ∧ chargeTimes id es = []
  exact : ∀ id r, (machine.run es).db.runs[id]? = some r → r.isSnapshot →
    TimeLedger (claimTimes id es) (chargeTimes id es) r.clock

theorem claimTimes_concat (id : RunId) (es : List Event) (e : Event) :
    claimTimes id (es ++ [e]) = claimTimes id es ++ e.claimTimes id (machine.run es) :=
  machine.gather_concat _ es e

theorem chargeTimes_concat (id : RunId) (es : List Event) (e : Event) :
    chargeTimes id (es ++ [e]) = chargeTimes id es ++ e.chargeTimes id (machine.run es) :=
  machine.gather_concat _ es e

/-- A run that is not there after an event was not there before, and the
event neither claimed nor charged it. -/
theorem TimeLedgers.absent_step {es : List Event} (h : TimeLedgers es) {e : Event} {id : RunId}
    (hnone : (machine.run (es ++ [e])).db.runs[id]? = none) :
    claimTimes id (es ++ [e]) = [] ∧ chargeTimes id (es ++ [e]) = [] := by
  have hsound := sound_of_reachable (machine.reachable_run es)
  have hbefore : (machine.run es).db.runs[id]? = none := by
    cases hr : (machine.run es).db.runs[id]? with
    | none => rfl
    | some r =>
      obtain ⟨r', hr', -⟩ := rows_step_of_some hsound e hr
      rw [machine.run_concat] at hnone
      exact absurd (hr'.symm.trans hnone) (by simp)
  rw [claimTimes_concat, chargeTimes_concat, (h.absent id hbefore).1, (h.absent id hbefore).2,
    List.nil_append, List.nil_append]
  refine ⟨?_, Event.chargeTimes_of_absent hbefore e⟩
  rcases e.claim_or_starts with ⟨env, input, runAt, attemptAt, rfl⟩ | ⟨-, hstarts⟩
  · refine if_neg fun hclaim => ?_
    obtain ⟨rfl, hcommit⟩ := hclaim
    obtain ⟨db, hdb⟩ := Option.isSome_iff_exists.mp hcommit
    obtain ⟨-, r, -, hr, -⟩ := claim_commit hdb
    exact absurd (hr.symm.trans hbefore) (by simp)
  · exact Event.claimTimes_of_starts hstarts

theorem TimeLedgers.step {es : List Event} (h : TimeLedgers es) (e : Event) :
    TimeLedgers (es ++ [e]) := by
  have hsound := sound_of_reachable (machine.reachable_run es)
  refine ⟨fun id hnone => h.absent_step hnone, fun id r' hr' hs => ?_⟩
  have hinv' := ((sound_of_reachable (machine.reachable_run (es ++ [e]))).rows hr').1
  rw [machine.run_concat] at hr'
  rw [claimTimes_concat, chargeTimes_concat]
  rcases e.claim_or_starts with ⟨env, input, runAt, attemptAt, he⟩ | ⟨-, hstarts⟩
  · rcases claim_step he hr' with ⟨hr, htimes⟩ | ⟨seen, r, hid, hseen, hstatus, hr, hclaim, htimes⟩
    · rw [htimes, Event.chargeTimes_of_kept hr hr' fun hidle => hidle, List.append_nil,
        List.append_nil]
      exact h.exact id r' hr hs
    · -- The claim reads a clock that is stopped, so it starts it now.
      have hinv := (hsound.rows hr).1
      obtain ⟨-, hidle, hclock⟩ := claimAttempt_clock hinv hclaim
      have hs : r.isSnapshot := by
        change r'.clock.snapshot.isSome at hs
        rw [hclock] at hs
        exact hs
      have hnow : seen.run.activeStartedAt = none := stopped_of_seen hseen hstatus hr hs
      have hno : input.attemptNo = r.clock.attempts.length + 1 := by
        have hnumbered := clock_numbered hinv'
        rw [hclock] at hnumbered
        simp only [List.map_append, List.map_singleton, List.length_append, List.length_singleton,
          List.range'_1_concat] at hnumbered
        have hlast := List.append_inj_right' hnumbered rfl
        rw [List.singleton_inj] at hlast
        omega
      rw [htimes, Event.chargeTimes_of_kept hr hr' fun _ => hidle, List.append_nil, hclock, hnow]
      exact (h.exact id r hr hs).claim hidle hno
  · rw [Event.claimTimes_of_starts hstarts, List.append_nil]
    rcases rows_step hsound e hr' with ⟨env, rfl, hcreates⟩ | hr | ⟨env, r, hr, hrow, henv⟩
    · -- A run that is created has nothing claimed and nothing charged.
      have hnew : (machine.run es).db.runs[(machine.run es).db.runs.length]? = none :=
        List.getElem?_eq_none (Nat.le_refl _)
      obtain ⟨hattempts, hdecisions, hstarted, hused, -⟩ := hcreates.clock
      rw [(h.absent _ hnew).1, (h.absent _ hnew).2, Event.chargeTimes_of_absent hnew]
      refine .of_idle (by rw [hattempts]; rfl) (by rw [hattempts]; rfl) (by rw [hattempts]; simp)
        (by rw [hattempts]; rfl) hstarted ?_
      rw [hused, hdecisions]
      rfl
    · rw [Event.chargeTimes_of_kept hr hr' fun hidle => hidle, List.append_nil]
      exact h.exact id r' hr hs
    · -- Of the other transactions on the run, only one that ends its attempt charges it.
      obtain ⟨hinv, hfrozen⟩ := hsound.rows hr
      have hstep := hrow.clock hinv hfrozen
      have hnos := congrArg List.length (attemptNos_of_rowStep hr hinv hfrozen hrow)
      have hlength : r'.clock.attempts.length = r.clock.attempts.length := by
        rw [hstarts] at hnos
        simpa [RunRows.clock] using hnos
      have hs : r.clock.snapshot.isSome := by
        rw [← hstep.frozen.1]
        exact hs
      have hcharges : e.chargeTimes id (machine.run es) =
          if ¬ r.clock.Idle ∧ r'.clock.Idle then [env.chargedAt] else [] := by
        have hr' : (ControlPlane.step (machine.run es) e).db.runs[id]? = some r' := hr'
        unfold Event.chargeTimes
        rw [henv, hr, hr']
      rw [hcharges]
      exact (h.exact id r hr hs).step hs hlength hstep

/-- **The time ledger of a snapshot run is exact**, in every reachable
state: over the claims that committed, and the times the ends of their
attempts were charged up to. -/
theorem time_ledger (es : List Event) {id : RunId} {r : RunRows}
    (hr : (machine.run es).db.runs[id]? = some r) (hs : r.isSnapshot) :
    TimeLedger (claimTimes id es) (chargeTimes id es) r.clock := by
  have hall : TimeLedgers es := by
    clear hr
    induction es using List.reverseRecOn with
    | nil => exact ⟨fun _ _ => ⟨rfl, rfl⟩, fun id r hr => absurd hr (by simp [machine, Machine.run])⟩
    | append_singleton es e ih => exact ih.step e
  exact hall.exact id r hr hs

/-- A run whose first attempt fails on a rate limit after 2.5 seconds, and
whose second is claimed a minute later. The first is charged for 4
milliseconds after its end was noted. -/
def rateLimitedRun : List Event := [
  .confirm (envAt 0) (smallConfirm "key") 0,
  claimAt 1000 0 1 1,
  .request { envAt 3500 with chargedAt := 3504 }
    (.complete ⟨0, 0⟩ (some 7) (.failed .modelRateLimit {}) (checkAt 3500 2) ⟨2, 2⟩),
  claimAt 60000 0 2 3]

/-- It was charged 3 seconds for the attempt and 30 for the backoff, and its
clock runs since the second claim. -/
theorem time_ledger_of_rateLimited :
    ∃ r, (machine.run rateLimitedRun).db.runs[0]? = some r ∧ r.run.usedSeconds = 33 ∧
      r.run.activeStartedAt = some 60000 ∧
      TimeLedger (claimTimes 0 rateLimitedRun) (chargeTimes 0 rateLimitedRun) r.clock ∧
      claimTimes 0 rateLimitedRun = [1000, 60000] ∧ chargeTimes 0 rateLimitedRun = [3504] := by
  obtain ⟨r, hr⟩ : ∃ r, (machine.run rateLimitedRun).db.runs[0]? = some r := ⟨_, rfl⟩
  have hall : ((machine.run rateLimitedRun).db.runs[0]?).map (fun r =>
      (r.isSnapshot, r.run.usedSeconds, r.run.activeStartedAt)) = some (true, 33, some 60000) := by
    decide
  rw [hr] at hall
  obtain ⟨hs, hused, hstarted⟩ : r.isSnapshot = true ∧ r.run.usedSeconds = 33 ∧
      r.run.activeStartedAt = some 60000 := by simpa using hall
  exact ⟨r, hr, hused, hstarted, time_ledger rateLimitedRun hr hs, by decide, by decide⟩

/-! ## The charge is not the interval up to the end -/

/-- The seconds of an attempt claimed at a time: from the claim to the end
that is stored, once it has ended. -/
def AttemptClock.seconds (claimed : Time) (a : AttemptClock) : ℤ :=
  match a.endedAt with
  | some ended => ceilSeconds (ended - claimed)
  | none => 0

/-- The seconds between the claims and the stored ends. -/
def storedSeconds (claims : List Time) (attempts : List AttemptClock) : ℤ :=
  (List.zipWith AttemptClock.seconds claims attempts).sum

/-- A run whose first attempt ends after 2 seconds to the millisecond, and
is charged for a millisecond more. -/
def lateChargeRun : List Event := [
  .confirm (envAt 0) (smallConfirm "key") 0,
  claimAt 1000 0 1 1,
  .request { envAt 3000 with chargedAt := 3001 }
    (.complete ⟨0, 0⟩ (some 7) (.failed .modelRateLimit {}) (checkAt 3000 2) ⟨2, 2⟩)]

/-- **What is charged may exceed what the stored times say**: the attempt was
claimed at 1000 and has ended at 3000, and beside the 30 seconds of backoff
it was charged 3. -/
theorem charged_beyond_end :
    ∃ r, (machine.run lateChargeRun).db.runs[0]? = some r ∧ r.isSnapshot = true ∧
      claimTimes 0 lateChargeRun = [1000] ∧
      r.run.usedSeconds = 33 ∧
      storedSeconds (claimTimes 0 lateChargeRun) r.clock.attempts +
        backoffSeconds r.clock.maxAttempts r.clock.decisions = 32 := by
  obtain ⟨r, hr⟩ : ∃ r, (machine.run lateChargeRun).db.runs[0]? = some r := ⟨_, rfl⟩
  have hclaims : claimTimes 0 lateChargeRun = [1000] := by decide
  have hall : ((machine.run lateChargeRun).db.runs[0]?).map (fun r =>
      (r.isSnapshot, r.run.usedSeconds, storedSeconds [1000] r.clock.attempts +
        backoffSeconds r.clock.maxAttempts r.clock.decisions)) = some (true, 33, 32) := by
    decide
  rw [hr] at hall
  obtain ⟨hs, hused, hstored⟩ : r.isSnapshot = true ∧ r.run.usedSeconds = 33 ∧
      storedSeconds [1000] r.clock.attempts +
        backoffSeconds r.clock.maxAttempts r.clock.decisions = 32 := by simpa using hall
  exact ⟨r, hr, hs, hclaims, hused, by rw [hclaims]; exact hstored⟩

end ControlPlane

end AgentReliability
