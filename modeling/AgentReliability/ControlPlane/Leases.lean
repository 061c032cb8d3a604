import AgentReliability.ControlPlane.Untouched
/-!
# Only a silent worker is declared lost

A claim and a heartbeat set the lease of an attempt; the lease monitor
marks an attempt whose lease has run out. `Event.renews` says which events
set it, and `AttemptStep` what an event may do to one attempt. So the lease
an attempt shows is the last one it was given, and an attempt marked as
lost had been given none that was still running.
-/

namespace AgentReliability

namespace ControlPlane

variable {ctx : Context} {r r' seen : RunRows}

/-! ## What an event does to one attempt -/

/-- The attempt may still be renewed, and may still end. -/
def Attempt.Executes (a : Attempt) : Prop := a.status = .claimed ∨ a.status = .running

instance (a : Attempt) : Decidable a.Executes := by unfold Attempt.Executes; infer_instance

/-- **The lease an event gives to an attempt, if it is committed**: until
when. -/
def Event.renews (id : AttemptId) : Event → Option Time
  | .request env (.claim input _ _) =>
    if input.runId = id.runId ∧ input.attemptNo = id.index + 1 then
      some (env.now + env.leaseTtlMs)
    else none
  | .request env (.heartbeat hid _ _) => if hid = id then some (env.now + env.leaseTtlMs) else none
  | _ => none

/-- The end `handleLeaseExpired` writes. -/
def Attempt.markLost (a : Attempt) (now : Time) : Attempt :=
  { a with status := .leaseExpired, failureCode := some .workerLost, endedAt := some now }

/-- **What a committed event may do to one attempt.** -/
inductive AttemptStep (id : AttemptId) (e : Event) : Option Attempt → Option Attempt → Prop
  | stay (hrenews : e.renews id = none) (a : Option Attempt) : AttemptStep id e a a
  | claim {t : Time} {a : Attempt} (hrenews : e.renews id = some t) (hrun : a.status = .running)
      (hlease : a.leaseExpiresAt = some t) : AttemptStep id e none (some a)
  | renew {t : Time} {a : Attempt} (hrenews : e.renews id = some t) (hexec : a.Executes) :
      AttemptStep id e (some a) (some { a with leaseExpiresAt := some t })
  | finish {a : Attempt} {status : AttemptStatus} {code : Option FailureCode} {now : Time}
      (hrenews : e.renews id = none) (hexec : a.Executes)
      (hstatus : status = .succeeded ∨ status = .failed) :
      AttemptStep id e (some a)
        (some { a with status, failureCode := code, endedAt := some now })
  | lose {env : Env} {readAt : ReadAt} {a : Attempt} {t : Time}
      (he : e = .request env (.leaseExpired id readAt)) (hexec : a.Executes)
      (hlease : a.leaseExpiresAt = some t) (hlost : t ≤ env.now) :
      AttemptStep id e (some a) (some (a.markLost env.now))

/-- An attempt that has ended is left as it is. -/
theorem AttemptStep.ended {id : AttemptId} {e : Event} {a : Attempt} {b : Option Attempt}
    (h : AttemptStep id e (some a) b) (hended : ¬ a.Executes) :
    b = some a ∧ e.renews id = none := by
  cases h with
  | stay hrenews => exact ⟨rfl, hrenews⟩
  | renew _ hexec => exact absurd hexec hended
  | finish _ hexec => exact absurd hexec hended
  | lose _ hexec => exact absurd hexec hended

section

variable {s : State} {env : Env} {e : Event} {id : AttemptId}

/-- An attempt of the run ends, and the others stay. -/
theorem finish_attempt {i : ℕ} {a : Attempt} {status : AttemptStatus} {code : Option FailureCode}
    {now : Time} (hrenews : e.renews id = none) (ha : r.attempts[i]? = some a) (hexec : a.Executes)
    (hstatus : status = .succeeded ∨ status = .failed) :
    AttemptStep id e r.attempts[id.index]?
      (r.endAttempt i status code now).attempts[id.index]? := by
  change AttemptStep id e _ (r.attempts.modify i _)[id.index]?
  by_cases hi : i = id.index
  · subst hi
    rw [List.getElem?_modify_eq, ha]
    exact .finish hrenews hexec hstatus
  · rw [List.getElem?_modify_ne _ _ hi]
    exact .stay hrenews _

theorem complete_attempt {i no : ℕ} {outcome : Outcome} (hrenews : e.renews id = none)
    (h : completeAttempt ctx seen i no outcome r = .ok r') :
    AttemptStep id e r.attempts[id.index]? r'.attempts[id.index]? := by
  cases outcome with
  | succeeded extras =>
    simp only [completeAttempt, completeSucceeded, bind_eq_ok, require_eq_ok, orThrow_eq_ok] at h
    obtain ⟨owner, howner, -, ⟨hrun, -⟩, -, -, r₁, h₁, r₂, h₂, r₃, h₃, h₄⟩ := h
    have hlast : r'.attempts = r₃.attempts := (recordEvent_untouched h₄).attempts.trans rfl
    rw [hlast, (transitionTask_untouched h₃).attempts, (transitionRun_untouched h₂).attempts,
      (transitionRun_untouched h₁).attempts, (persistExtras_untouched ctx seen _ i extras).attempts]
    exact finish_attempt hrenews howner (.inr hrun) (.inl rfl)
  | failed code extras =>
    simp only [completeAttempt, completeFailed, bind_eq_ok, require_eq_ok, orThrow_eq_ok] at h
    obtain ⟨owner, howner, -, hrun, r₁, h₁, h₂⟩ := h
    rw [(applyPolicy_untouched h₂).attempts, (interruptSeen_untouched h₁).attempts,
      (persistExtras_untouched ctx seen _ i extras).attempts]
    exact finish_attempt hrenews howner (.inr hrun) (.inr rfl)

/-- The lease monitor marks the attempt it was told of, if its lease has
run out by then. -/
theorem leaseExpired_attempt {j : AttemptId} {no : ℕ} {readAt : ReadAt} (hnow : ctx.now = env.now)
    (hj : j.runId = id.runId)
    (h : handleLeaseExpired ctx seen j.index no r = .ok r') :
    AttemptStep id (.request env (.leaseExpired j readAt)) r.attempts[id.index]?
      r'.attempts[id.index]? := by
  unfold handleLeaseExpired at h
  split at h
  · obtain rfl := pure_eq_ok.mp h
    exact .stay rfl _
  · next a ha =>
    split at h
    · next hlost =>
      simp only [bind_eq_ok] at h
      obtain ⟨r₁, h₁, h₂⟩ := h
      rw [(applyPolicy_untouched h₂).attempts, (interruptSeen_untouched h₁).attempts]
      change AttemptStep id _ _ (r.attempts.modify j.index _)[id.index]?
      by_cases hi : j.index = id.index
      · have hid : j = id := by
          cases j
          cases id
          simp_all
        subst hid
        simp only [leaseLost, Bool.and_eq_true, Bool.or_eq_true, decide_eq_true_eq] at hlost
        obtain ⟨hexec, hexpired⟩ := hlost
        cases hlease : a.leaseExpiresAt with
        | none => simp [hlease] at hexpired
        | some t =>
          rw [List.getElem?_modify_eq, ha, hnow]
          simp only [hlease, hnow, decide_eq_true_eq] at hexpired
          exact .lose rfl hexec hlease hexpired
      · rw [List.getElem?_modify_ne _ _ hi]
        exact .stay rfl _
    · obtain rfl := pure_eq_ok.mp h
      exact .stay rfl _

theorem cancel_attempt (hrenews : e.renews id = none) (h : ControlPlane.cancel ctx r = .ok r') :
    AttemptStep id e r.attempts[id.index]? r'.attempts[id.index]? := by
  unfold ControlPlane.cancel at h
  split at h
  · obtain rfl := pure_eq_ok.mp h
    exact .stay hrenews _
  · simp only [bind_eq_ok] at h
    obtain ⟨-, -, hevent⟩ := h
    rw [(recordEvent_untouched hevent).attempts]
    change AttemptStep id e _ (r.attempts.map _)[id.index]?
    rw [List.getElem?_map]
    cases ha : r.attempts[id.index]? with
    | none => exact .stay hrenews _
    | some a =>
      rw [Option.map_some]
      split
      · next hexec => exact .finish hrenews hexec.symm (.inr rfl)
      · exact .stay hrenews _

/-- A claim appends the attempt of its number. -/
theorem claim_attempts {input : ClaimInput} (h : claimAttempt ctx seen input r = .ok r') :
    input.attemptNo = r.latestNo + 1 ∧ r'.attempts = r.attempts ++ [{
      no := input.attemptNo
      workerId := input.workerId
      status := .running
      leaseExpiresAt := some (ctx.now + ctx.leaseTtlMs)
      leaseToken := some ctx.leaseToken }] := by
  simp only [claimAttempt, bind_eq_ok, require_eq_ok] at h
  obtain ⟨-, ⟨-, hno, -⟩, r₁, h₁, h₂⟩ := h
  refine ⟨hno, ?_⟩
  have hfirst := (transitionRun_untouched h₁).attempts
  split at h₂
  · rw [(transitionTask_untouched h₂).attempts]
    exact hfirst
  · obtain rfl := pure_eq_ok.mp h₂
    exact hfirst

theorem claim_attempt {input : ClaimInput} {runAt attemptAt : ℕ} (hinv : r.core.StatusInv)
    (hnow : ctx.now = env.now) (httl : ctx.leaseTtlMs = env.leaseTtlMs)
    (hid : input.runId = id.runId) (h : claimAttempt ctx seen input r = .ok r') :
    AttemptStep id (.request env (.claim input runAt attemptAt)) r.attempts[id.index]?
      r'.attempts[id.index]? := by
  obtain ⟨hno, hattempts⟩ := claim_attempts h
  have hlength : input.attemptNo = r.attempts.length + 1 := by
    rw [hno, ← RunRows.core_latestNo, hinv.latestNo]
    simp [RunRows.core]
  rw [hattempts, List.getElem?_append]
  -- The number names the position that is written, and only that.
  rcases Nat.lt_trichotomy id.index r.attempts.length with hlt | heq | hgt
  · rw [if_pos hlt]
    refine .stay ?_ _
    simp only [Event.renews]
    rw [if_neg (by omega)]
  · have hrenews : (Event.request env (.claim input runAt attemptAt)).renews id =
        some (env.now + env.leaseTtlMs) := by
      simp only [Event.renews]
      rw [if_pos ⟨hid, by omega⟩]
    rw [if_neg (by omega), List.getElem?_eq_none (by omega), heq, Nat.sub_self]
    exact .claim hrenews rfl (by rw [hnow, httl])
  · rw [if_neg (by omega), List.getElem?_eq_none (by omega), List.getElem?_eq_none (by simp; omega)]
    refine .stay ?_ _
    simp only [Event.renews]
    rw [if_neg (by omega)]

theorem heartbeat_attempt {j : AttemptId} {token : Option LeaseToken} {check : LeaseCheck}
    (hnow : ctx.now = env.now) (httl : ctx.leaseTtlMs = env.leaseTtlMs) (hj : j.runId = id.runId)
    (h : ControlPlane.heartbeat ctx j.index r = .ok r') :
    AttemptStep id (.request env (.heartbeat j token check)) r.attempts[id.index]?
      r'.attempts[id.index]? := by
  simp only [ControlPlane.heartbeat, bind_eq_ok, require_eq_ok, orThrow_eq_ok, pure_eq_ok] at h
  obtain ⟨a, ha, -, hexec, rfl⟩ := h
  change AttemptStep id _ _ (r.attempts.modify j.index _)[id.index]?
  rw [hnow, httl]
  by_cases hi : j.index = id.index
  · have hid : j = id := by
      cases j
      cases id
      simp_all
    subst hid
    rw [List.getElem?_modify_eq, ha]
    exact .renew (by simp [Event.renews]) hexec
  · rw [List.getElem?_modify_ne _ _ hi]
    refine .stay ?_ _
    simp only [Event.renews]
    rw [if_neg fun h => hi (by rw [h])]

theorem pause_attempt {i : ℕ} {token : Option LeaseToken} {reason : String} {patch : Option String}
    (hrenews : e.renews id = none) (h : ControlPlane.pause ctx i token reason patch r = .ok r') :
    AttemptStep id e r.attempts[id.index]? r'.attempts[id.index]? := by
  unfold ControlPlane.pause at h
  obtain ⟨a, ha, hrun, hop⟩ := withLease_running h
  have hattempts : r'.attempts = (r.endAttempt i .failed none ctx.now).attempts := by
    rw [(recordEvent_untouched hop).attempts]
    split <;> rfl
  rw [hattempts]
  exact finish_attempt hrenews ha (.inr hrun) (.inr rfl)

theorem environment_attempts {i environmentId : ℕ} {token : Option LeaseToken} {imageId : String}
    {resolved : Option String}
    (h : ControlPlane.environment ctx i token imageId environmentId resolved r = .ok r') :
    r'.attempts = r.attempts := by
  unfold ControlPlane.environment at h
  obtain ⟨a, -, -, hop⟩ := withLease_running h
  simp only [bind_eq_ok, pure_eq_ok] at hop
  obtain ⟨-, -, -, -, rfl⟩ := hop
  rfl

theorem attempt_of_same (hrenews : e.renews id = none) (h : r'.attempts = r.attempts) :
    AttemptStep id e r.attempts[id.index]? r'.attempts[id.index]? := by
  rw [h]
  exact .stay hrenews _

/-! ## One event -/

/-- **What a request does to an attempt of the run it writes.** -/
theorem attemptStep_of_request (hs : Sound s) {req : Request} {tx : Transaction}
    (hto : req.GoesTo s env tx) (hrun : tx.runId = id.runId)
    (hr : s.db.runs[tx.runId]? = some r)
    (hbody : tx.body (s.db.context env tx.runId) r = .ok r') :
    AttemptStep id (.request env req) r.attempts[id.index]? r'.attempts[id.index]? := by
  cases hto with
  | claim => exact claim_attempt (hs.rows hr).1 rfl rfl hrun hbody
  | heartbeat => exact heartbeat_attempt rfl rfl hrun hbody
  | complete => exact complete_attempt rfl hbody
  | saveCheckpoint => exact attempt_of_same rfl (saveCheckpoint_untouched hbody).attempts
  | leaseExpired => exact leaseExpired_attempt rfl hrun hbody
  | phase => exact attempt_of_same rfl (phase_untouched hbody).attempts
  | pause => exact pause_attempt rfl hbody
  | @pauseRun runId readAt i a =>
    have h : ControlPlane.pause (s.db.context env runId) i a.leaseToken "PAUSED_BY_USER" none r =
        .ok r' := hbody
    exact pause_attempt rfl h
  | cancel => exact cancel_attempt rfl hbody
  | resume => exact attempt_of_same rfl (resume_untouched hbody).attempts
  | reserve => exact attempt_of_same rfl (reserve_untouched hbody).attempts
  | settle => exact attempt_of_same rfl (settle_untouched hbody).attempts
  | ingest => exact attempt_of_same rfl (ingest_untouched hbody).attempts
  | @markPublished runId message =>
    have h : ControlPlane.markPublished (s.db.context env runId) message r = .ok r' := hbody
    unfold ControlPlane.markPublished at h
    exact attempt_of_same rfl (updateMessage_untouched h).attempts
  | @countFailure runId message =>
    have h : ControlPlane.countFailure message r = .ok r' := hbody
    unfold ControlPlane.countFailure at h
    exact attempt_of_same rfl (updateMessage_untouched h).attempts
  | @republish runId message =>
    have h : ControlPlane.republish message r = .ok r' := hbody
    unfold ControlPlane.republish at h
    exact attempt_of_same rfl (updateMessage_untouched h).attempts

/-- A request gives no lease to an attempt of another run. -/
theorem renews_of_other {req : Request} {tx : Transaction} (hto : req.GoesTo s env tx)
    (hrun : tx.runId ≠ id.runId) : (Event.request env req).renews id = none := by
  cases hto with
  | claim =>
    simp only [Event.renews]
    exact if_neg fun h => hrun h.1
  | heartbeat =>
    simp only [Event.renews]
    exact if_neg fun h => hrun (by rw [h])
  | _ => rfl

/-- An attempt, where the rows of one run are written. -/
theorem attempt?_set {db : Database} {j : RunId} (hr : db.runs[j]? = some r) :
    ({ db with runs := db.runs.set j r' } : Database).attempt? id =
      if j = id.runId then r'.attempts[id.index]? else db.attempt? id := by
  have hlt := (List.getElem?_eq_some_iff.mp hr).1
  unfold Database.attempt?
  by_cases hj : j = id.runId
  · subst hj
    rw [if_pos rfl, List.getElem?_set_self hlt]
    rfl
  · rw [if_neg hj, List.getElem?_set_ne hj]

/-- A new run has no attempts. -/
theorem attempt?_append {db : Database} (h : r.attempts = []) :
    ({ db with runs := db.runs ++ [r] } : Database).attempt? id = db.attempt? id := by
  unfold Database.attempt?
  rcases Nat.lt_trichotomy id.runId db.runs.length with hlt | heq | hgt
  · rw [List.getElem?_append_left hlt]
  · rw [heq, List.getElem?_concat_length, List.getElem?_eq_none (le_refl _)]
    simp [h]
  · rw [List.getElem?_eq_none (by simp; omega), List.getElem?_eq_none (by omega)]

/-- **What a committed event does to an attempt.** -/
theorem attemptStep_of_commit (hs : Sound s) {db : Database} (hc : e.commit? s = some db) :
    AttemptStep id e (s.db.attempt? id) (db.attempt? id) := by
  cases e with
  | createTask env input =>
    obtain ⟨r, hr, rfl⟩ := Option.map_eq_some_iff.mp hc
    have hnew := (Creates.createTask (toOption_eq_some.mp hr)).created.1.attempts
    rw [attempt?_append (List.map_eq_nil_iff.mp hnew)]
    exact .stay rfl _
  | confirm env input readAt =>
    obtain ⟨r, hr, rfl⟩ := Option.map_eq_some_iff.mp hc
    have hnew : r.attempts = [] := by
      unfold confirmed? at hr
      split at hr
      · exact absurd hr (by simp)
      · split at hr
        · next rows hconfirm =>
          obtain rfl := Option.some.inj hr
          rw [confirm_created hconfirm]
          rfl
        · exact absurd hr (by simp)
    rw [attempt?_append hnew]
    exact .stay rfl _
  | request env req =>
    obtain ⟨tx, r, r', hprep, hr, hbody, rfl⟩ := Request.commit_eq_some hc
    have hto := Request.goesTo hprep
    rw [attempt?_set hr]
    split
    · next hrun =>
      have hbefore : s.db.attempt? id = r.attempts[id.index]? := by
        rw [Database.attempt?, ← hrun, hr]
        rfl
      rw [hbefore]
      exact attemptStep_of_request hs hto hrun hr hbody
    · next hrun => exact .stay (renews_of_other hto hrun) _
  | environment env j token fingerprint imageId log =>
    obtain ⟨db', hdb', rfl⟩ := Option.map_eq_some_iff.mp hc
    rw [toOption_eq_some] at hdb'
    simp only [Database.transact, bind_eq_ok, orThrow_eq_ok, pure_eq_ok] at hdb'
    obtain ⟨r, hr, r', hbody, rfl⟩ := hdb'
    have hsame : ∀ environments, ({ s.db with
        runs := s.db.runs.set j.runId r', environments } : Database).attempt? id =
          s.db.attempt? id := by
      intro environments
      refine (attempt?_set hr).trans ?_
      split
      · next hrun =>
        rw [environment_attempts hbody, Database.attempt?, ← hrun, hr]
        rfl
      · rfl
    exact hsame _ ▸ .stay rfl _
  | publish => exact absurd hc (by simp [Event.commit?])

end

/-! ## Over the runs of the machine -/

/-- The lease an event gives to an attempt, in the state it is taken in. -/
def Event.leasesTo (id : AttemptId) (s : State) (e : Event) : List Time :=
  if (e.commit? s).isSome then (e.renews id).toList else []

/-- **The leases an attempt was given**, in order: the one of its claim, and
those of its heartbeats. -/
def leases (id : AttemptId) (es : List Event) : List Time :=
  machine.gather (Event.leasesTo id) machine.init es

theorem leases_concat (id : AttemptId) (es : List Event) (e : Event) :
    leases id (es ++ [e]) = leases id es ++ e.leasesTo id (machine.run es) :=
  machine.gather_concat _ es e

/-- An event gives no lease to an attempt, or it is a step of it that
does. -/
theorem attempt_step (es : List Event) (e : Event) (id : AttemptId) :
    (leases id (es ++ [e]) = leases id es ∧
      (machine.run (es ++ [e])).db.attempt? id = (machine.run es).db.attempt? id) ∨
    (leases id (es ++ [e]) = leases id es ++ (e.renews id).toList ∧
      AttemptStep id e ((machine.run es).db.attempt? id)
        ((machine.run (es ++ [e])).db.attempt? id)) := by
  rw [leases_concat, machine.run_concat]
  cases hc : e.commit? (machine.run es) with
  | none =>
    refine .inl ⟨by simp [Event.leasesTo, hc], ?_⟩
    change (step (machine.run es) e).db.attempt? id = _
    unfold step
    rw [hc]
  | some db =>
    refine .inr ⟨by simp [Event.leasesTo, hc], ?_⟩
    have hdb : (step (machine.run es) e).db = db := by
      unfold step
      rw [hc]
      rfl
    change AttemptStep id e _ ((step (machine.run es) e).db.attempt? id)
    rw [hdb]
    exact attemptStep_of_commit (sound_of_reachable (machine.reachable_run es)) hc

/-- **An attempt shows the last lease it was given**, and was given one. -/
structure Leased (given : List Time) (a : Option Attempt) : Prop where
  shown : a.bind (·.leaseExpiresAt) = given.getLast?
  given : a.isSome → given ≠ []

theorem leased_of_run (es : List Event) (id : AttemptId) :
    Leased (leases id es) ((machine.run es).db.attempt? id) := by
  induction es using List.reverseRecOn with
  | nil => exact ⟨rfl, fun h => absurd h Bool.false_ne_true⟩
  | append_singleton es e ih =>
    rcases attempt_step es e id with ⟨hleases, hsame⟩ | ⟨hleases, hstep⟩
    · rw [hleases, hsame]
      exact ih
    · rw [hleases]
      generalize (machine.run es).db.attempt? id = before at ih hstep
      generalize (machine.run (es ++ [e])).db.attempt? id = after at hstep
      cases hstep with
      | stay hrenews =>
        rw [hrenews]
        simpa using ih
      | @claim t a hrenews hrun hlease =>
        rw [hrenews]
        exact ⟨by simp [hlease], by simp⟩
      | renew hrenews =>
        rw [hrenews]
        exact ⟨by simp, by simp⟩
      | finish hrenews =>
        rw [hrenews]
        exact ⟨by simpa using ih.shown, by simpa using ih.given⟩
      | lose he =>
        subst he
        exact ⟨by simpa [Event.renews, Attempt.markLost] using ih.shown,
          by simpa [Event.renews] using ih.given⟩

/-- **Only a silent worker is declared lost.** In every run, an attempt
marked as lost was marked by the lease monitor, at a moment when the last
lease its claim or a heartbeat had given it had run out; it was given none
since, and it shows when and why it ended. -/
theorem lost_after_silence (es : List Event) {id : AttemptId} {a : Attempt}
    (ha : (machine.run es).db.attempt? id = some a) (hlost : a.status = .leaseExpired) :
    ∃ (before after : List Event) (env : Env) (readAt : ReadAt) (t : Time),
      es = before ++ .request env (.leaseExpired id readAt) :: after ∧
      (leases id before).getLast? = some t ∧ t ≤ env.now ∧ leases id es = leases id before ∧
      a.endedAt = some env.now ∧ a.failureCode = some .workerLost := by
  -- By induction on the run: the marking is the last event, or lies before it.
  induction es using List.reverseRecOn with
  | nil => exact absurd ha (by simp [Machine.run, machine, Database.attempt?])
  | append_singleton es e ih =>
    have hearlier : ∀ (hold : (machine.run es).db.attempt? id = some a)
        (hleases : leases id (es ++ [e]) = leases id es),
        ∃ (before after : List Event) (env : Env) (readAt : ReadAt) (t : Time),
          es ++ [e] = before ++ .request env (.leaseExpired id readAt) :: after ∧
          (leases id before).getLast? = some t ∧ t ≤ env.now ∧
          leases id (es ++ [e]) = leases id before ∧
          a.endedAt = some env.now ∧ a.failureCode = some .workerLost := by
      intro hold hleases
      obtain ⟨before, after, env, readAt, t, hes, hlast, hle, hsame, hend⟩ := ih hold
      refine ⟨before, after ++ [e], env, readAt, t, ?_, hlast, hle, hleases.trans hsame, hend⟩
      rw [hes]
      simp
    have hshown := (leased_of_run es id).shown
    rcases attempt_step es e id with ⟨hleases, hsame⟩ | ⟨hleases, hstep⟩
    · exact hearlier (hsame ▸ ha) hleases
    · rw [ha] at hstep
      generalize hbefore : (machine.run es).db.attempt? id = old at hstep
      cases hstep with
      | stay hrenews =>
        rw [hrenews] at hleases
        exact hearlier hbefore (by simpa using hleases)
      | claim _ hrun =>
        rw [hrun] at hlost
        exact absurd hlost (by decide)
      | renew _ hexec =>
        rcases hexec with hexec | hexec <;> simp [hexec] at hlost
      | finish _ _ hstatus =>
        rcases hstatus with rfl | rfl <;> simp at hlost
      | @lose env readAt b t he hexec hlease hle =>
        subst he
        refine ⟨es, [], env, readAt, t, rfl, ?_, hle, by simpa [Event.renews] using hleases, rfl,
          rfl⟩
        rw [← hshown, hbefore]
        exact hlease

/-- A worker claims a run, renews its lease once and falls silent. The first
look of the monitor comes while the renewed lease runs. -/
def silentRun : List Event := [
  .confirm (envAt 0) (smallConfirm "key") 0,
  claimAt 1000 0 1 1,
  .request (envAt 20000) (.heartbeat ⟨0, 0⟩ (some 7) (checkAt 20000 2)),
  .request (envAt 40000) (.leaseExpired ⟨0, 0⟩ ⟨3, 3⟩),
  .request (envAt 50000) (.leaseExpired ⟨0, 0⟩ ⟨3, 3⟩)]

theorem lost_after_silence_of_silent :
    ∃ a, (machine.run silentRun).db.attempt? ⟨0, 0⟩ = some a ∧ a.status = .leaseExpired ∧
      leases ⟨0, 0⟩ silentRun = [31000, 50000] ∧
      ∃ (before after : List Event) (env : Env) (readAt : ReadAt) (t : Time),
        silentRun = before ++ .request env (.leaseExpired ⟨0, 0⟩ readAt) :: after ∧
        (leases ⟨0, 0⟩ before).getLast? = some t ∧ t ≤ env.now ∧
        a.endedAt = some env.now := by
  obtain ⟨a, ha⟩ : ∃ a, (machine.run silentRun).db.attempt? ⟨0, 0⟩ = some a := ⟨_, rfl⟩
  have hlost : a.status = .leaseExpired := by
    have : ((machine.run silentRun).db.attempt? ⟨0, 0⟩).map (·.status) = some .leaseExpired := by
      decide
    rw [ha] at this
    exact Option.some.inj this
  obtain ⟨before, after, env, readAt, t, hes, hlast, hle, -, hended, -⟩ :=
    lost_after_silence silentRun ha hlost
  exact ⟨a, ha, hlost, by decide, before, after, env, readAt, t, hes, hlast, hle, hended⟩

end ControlPlane

end AgentReliability
