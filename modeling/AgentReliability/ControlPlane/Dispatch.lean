import AgentReliability.ControlPlane.EventLog
import AgentReliability.ControlPlane.Statuses
import Mathlib.Data.List.Count
/-!
# No dispatched run is orphaned

The number of an attempt is computed when a run is created, when the policy
retries it and when a person resumes it, and is consumed by the claim. The
four agree: the commands of a run are numbered like its attempts, a run
that waits has one command more than it has attempts, and that command is
pending or on the stream. The claim it asks for is the only one that can
be granted, and it is granted once.
-/

namespace AgentReliability

namespace ControlPlane

/-! ## What the outbox has sent -/

/-- **A message is pending, or it was appended to the stream.** -/
def PublishInv (s : State) : Prop :=
  ∀ r ∈ s.db.runs, ∀ m ∈ r.outbox, m.status = .pending ∨ m.payload ∈ s.stream

/-- The publisher marks a message only after its XADD. -/
theorem markPublished_commit {s : State} {env : Env} {id : RunId} {j : ℕ} {db : Database}
    (h : (Event.request env (.markPublished id j)).commit? s = some db) :
    ∃ (r : RunRows) (m : OutboxMessage), s.db.runs[id]? = some r ∧ r.outbox[j]? = some m ∧
      m.payload ∈ s.stream ∧ db.runs = s.db.runs.set id { r with
        outbox := r.outbox.modify j fun m =>
          { m with status := .published, publishedAt := some env.now } } := by
  obtain ⟨tx, r₁, r₂, hprep, hr₁, hbody, rfl⟩ := Request.commit_eq_some h
  cases Request.goesTo hprep with
  | @markPublished _ _ r m hr hm hsent =>
    obtain rfl := Option.some.inj (hr.symm.trans hr₁)
    simp only [markPublished, updateMessage, bind_eq_ok, pure_eq_ok] at hbody
    obtain ⟨-, -, rfl⟩ := hbody
    exact ⟨r, m, hr, hm, hsent, rfl⟩

/-- Only `markPublished` writes as the publisher. -/
theorem Event.eq_markPublished {e : Event} (h : e.writer = .publisher) :
    ∃ env id j, e = .request env (.markPublished id j) := by
  cases e with
  | request env req =>
    cases req with
    | markPublished id j => exact ⟨env, id, j, rfl⟩
    | _ => exact absurd h (by simp [Event.writer, Request.writer])
  | _ => exact absurd h (by simp [Event.writer])

/-- The messages of a run the publisher has just marked. -/
theorem publishInv_of_modify {stream : List RunCommand} {outbox : List OutboxMessage} {j : ℕ}
    {m : OutboxMessage} {f : OutboxMessage → OutboxMessage} (hf : ∀ m, (f m).payload = m.payload)
    (hj : outbox[j]? = some m) (hsent : m.payload ∈ stream)
    (h : ∀ m ∈ outbox, m.status = .pending ∨ m.payload ∈ stream) :
    ∀ m ∈ outbox.modify j f, m.status = .pending ∨ m.payload ∈ stream := by
  intro m' hm'
  obtain ⟨k, hk⟩ := List.getElem?_of_mem hm'
  rw [List.getElem?_modify] at hk
  obtain ⟨m₀, hm₀, rfl⟩ := Option.map_eq_some_iff.mp hk
  by_cases hjk : j = k
  · subst hjk
    obtain rfl := Option.some.inj (hj.symm.trans hm₀)
    rw [if_pos rfl]
    exact .inr ((hf m).symm ▸ hsent)
  · rw [if_neg hjk]
    exact h m₀ (List.mem_of_getElem? hm₀)

/-- **Every event keeps the outbox and the stream in step.** -/
theorem PublishInv.step {s : State} (hs : Sound s) (h : PublishInv s) (e : Event) :
    PublishInv (step s e) := by
  unfold ControlPlane.step
  split
  · rename_i db hc
    intro r' hr' m hm
    change r' ∈ db.runs at hr'
    change m.status = .pending ∨ m.payload ∈ s.stream
    by_cases hw : e.writer = .publisher
    · obtain ⟨env, id, j, rfl⟩ := Event.eq_markPublished hw
      obtain ⟨r, m₀, hr, hm₀, hsent, hdb⟩ := markPublished_commit hc
      rw [hdb] at hr'
      rcases List.mem_or_eq_of_mem_set hr' with hr' | rfl
      · exact h r' hr' m hm
      · refine publishInv_of_modify ?_ hm₀ hsent (h r (List.mem_of_getElem? hr)) m hm
        exact fun _ => rfl
    · cases hs.dbStep_of_commit hc with
      | created hcreates hdb =>
        rw [hdb, List.mem_append, List.mem_singleton] at hr'
        rcases hr' with hr' | rfl
        · exact h r' hr' m hm
        · exact .inl ((Creates.log hcreates).2.2 m hm)
      | @wrote env id r r₁ hr hrow hdb =>
        rw [hdb] at hr'
        rcases List.mem_or_eq_of_mem_set hr' with hr' | rfl
        · exact h r' hr' m hm
        · rcases hrow.outbox hw m hm with hpending | ⟨m₀, hm₀, hpayload, hstatus⟩
          · exact .inl hpending
          · rw [← hpayload, ← hstatus]
            exact h r (List.mem_of_getElem? hr) m₀ hm₀
  · intro r hr m hm
    rcases h r hr m hm with hpending | hsent
    · exact .inl hpending
    · exact .inr (List.mem_append_left _ hsent)

theorem publishInv_of_reachable {s : State} (hs : machine.Reachable s) : PublishInv s := by
  have hboth : Sound s ∧ PublishInv s := by
    refine machine.invariant (P := fun s => Sound s ∧ PublishInv s) ⟨Sound.init, ?_⟩ ?_ hs
    · intro r hr
      exact absurd hr (by simp [machine])
    · rintro s e ⟨hs, h⟩
      exact ⟨hs.step e, h.step hs e⟩
  exact hboth.2

/-! ## Claims -/

/-- The attempts a transaction starts. -/
def Writer.starts : Writer → List ℕ
  | claimant no => [no]
  | _ => []

theorem core_map_no (r : RunRows) : r.core.attempts.map (·.no) = r.attempts.map (·.no) := by
  simp [RunRows.core, Attempt.state, Function.comp_def]

theorem attemptNos_of_claim {ctx : Context} {seen r r' : RunRows} {input : ClaimInput}
    (h : claimAttempt ctx seen input r = .ok r') :
    r'.attempts.map (·.no) = r.attempts.map (·.no) ++ [input.attemptNo] := by
  simp only [claimAttempt, bind_eq_ok] at h
  obtain ⟨-, -, r₁, h₁, h₂⟩ := h
  have hfirst : r₁.core.attempts.map (·.no) = r.core.attempts.map (·.no) ++ [input.attemptNo] := by
    rw [(transitionRun_core h₁).2]
    simp [Attempt.state]
  rw [← core_map_no, ← core_map_no, ← hfirst]
  split at h₂
  · rw [(transitionTask_core h₂).2]
    rfl
  · rw [pure_eq_ok] at h₂
    subst h₂
    rfl

/-- A run that waits for a claim starts to run by a claim only. -/
theorem not_running_of_dispatched {ctx : Context} {r r' : RunRows} {w : Writer}
    (hinv : r.core.StatusInv) (hw : w.starts = []) (hstatus : r.run.status = .dispatched)
    (h : RowStep ctx r r' w) : r'.run.status ≠ .running := by
  by_cases hlifecycle : w.isLifecycle
  · cases w with
    | claimant no => exact absurd hw (by simp [Writer.starts])
    | spender id =>
      cases h with
      | reserve h => exact absurd (hstatus.symm.trans (running_of_reserve hinv h)) (by decide)
    | lifecycle =>
      rcases h.of_idle hinv (by rw [hstatus]; decide) with rfl | hcancel | hresume
      · rw [hstatus]; decide
      · unfold cancel at hcancel
        rw [if_neg (by rw [hstatus]; decide)] at hcancel
        simp only [bind_eq_ok] at hcancel
        obtain ⟨-, -, hcancel⟩ := hcancel
        have hcancelled : r'.run.status = .cancelled :=
          congrArg RunCore.status (controlEvent_core hcancel)
        rw [hcancelled]; decide
      · simp only [resume, bind_eq_ok, require_eq_ok] at hresume
        obtain ⟨-, hinterrupted, -⟩ := hresume
        exact absurd (hstatus.symm.trans hinterrupted) (by decide)
    | _ => exact absurd hlifecycle (by simp [Writer.isLifecycle])
  · rw [(onlyBookkeeping_of_rowStep hlifecycle h).status, hstatus]
    decide

/-- **Only a claim starts an attempt**, and it starts the one it names. -/
theorem attemptNos_of_rowStep {db : Database} {env : Env} {id : RunId} {r r' : RunRows} {w : Writer}
    (hr : db.runs[id]? = some r) (hinv : r.core.StatusInv) (hfrozen : r.core.BudgetFrozen)
    (h : RowStep (db.context env id) r r' w) :
    r'.attempts.map (·.no) = r.attempts.map (·.no) ++ w.starts := by
  have hcore := h.core hr hinv hfrozen
  by_cases hw : w.starts = []
  · rw [hw, List.append_nil, ← core_map_no, ← core_map_no]
    have hidle := not_running_of_dispatched hinv hw (h := h)
    change r.core.status = .dispatched → r'.core.status ≠ .running at hidle
    generalize r.core = c, r'.core = d at hcore hidle
    -- Of all steps of the abstract run only the claim adds an attempt.
    cases hcore with
    | claim hdispatched => exact absurd rfl (hidle hdispatched)
    | succeed hi => exact RunCore.endAttempt_map_no hi
    | park hi => exact RunCore.endAttempt_map_no hi
    | redispatch hi => exact RunCore.endAttempt_map_no hi
    | abort hi => exact RunCore.endAttempt_map_no hi
    | cancel => exact RunCore.stopAttempts_map_no
    | stay => rfl
    | resume => rfl
    | checkpoint => rfl
    | reserve => rfl
    | settle => rfl
  · cases w with
    | claimant no =>
      cases h with
      | claim h => exact attemptNos_of_claim h
    | _ => exact absurd rfl hw

/-- What a claim that commits read, and what it found: the run it names,
waiting for it. -/
theorem claim_commit_seen {s : State} {env : Env} {input : ClaimInput} {runAt attemptAt : ℕ}
    {db : Database} (h : (Event.request env (.claim input runAt attemptAt)).commit? s = some db) :
    ∃ seen r r' : RunRows, (s.runAt runAt input.runId = some seen ∧
        seen.run.status = .dispatched) ∧
      s.db.runs[input.runId]? = some r ∧
      claimAttempt (s.db.context env input.runId) seen input r = .ok r' ∧
      db.runs = s.db.runs.set input.runId r' := by
  obtain ⟨tx, r, r', hprep, hr, hbody, rfl⟩ := Request.commit_eq_some h
  cases Request.goesTo hprep with
  | @claim _ _ _ seen hseen hnew hstatus =>
    exact ⟨seen, r, r', ⟨hseen, hstatus⟩, hr, hbody, rfl⟩

theorem claim_commit {s : State} {env : Env} {input : ClaimInput} {runAt attemptAt : ℕ}
    {db : Database} (h : (Event.request env (.claim input runAt attemptAt)).commit? s = some db) :
    ∃ seen r r' : RunRows, s.db.runs[input.runId]? = some r ∧
      claimAttempt (s.db.context env input.runId) seen input r = .ok r' ∧
      db.runs = s.db.runs.set input.runId r' := by
  obtain ⟨seen, r, r', -, hr, hclaim, hdb⟩ := claim_commit_seen h
  exact ⟨seen, r, r', hr, hclaim, hdb⟩

/-! ## Each number is granted once -/

/-- The numbers of a run's attempts, none before the run exists. -/
def Database.attemptNos (db : Database) (id : RunId) : List ℕ :=
  (db.runs[id]?).elim [] fun r => r.attempts.map (·.no)

theorem Database.attemptNos_of_some {db : Database} {id : RunId} {r : RunRows}
    (hr : db.runs[id]? = some r) : db.attemptNos id = r.attempts.map (·.no) := by
  rw [attemptNos, hr]; rfl

/-- A later version still has the attempts of an earlier one. -/
theorem attemptNos_later {v w : Database} (h : DbLater v w) {id : RunId} {no : ℕ}
    (hno : no ∈ v.attemptNos id) : no ∈ w.attemptNos id := by
  cases hr : v.runs[id]? with
  | none => exact absurd hno (by simp [Database.attemptNos, hr])
  | some r =>
    obtain ⟨r', hr', hlater⟩ := h id r hr
    rw [Database.attemptNos_of_some hr, ← core_map_no] at hno
    rw [Database.attemptNos_of_some hr', ← core_map_no]
    obtain ⟨a, ha, rfl⟩ := List.mem_map.mp hno
    obtain ⟨i, hi⟩ := List.getElem?_of_mem ha
    have hlt : i < r'.core.attempts.length :=
      (List.getElem?_eq_some_iff.mp hi).1.trans_le hlater.length_le
    refine List.mem_map.mpr ⟨r'.core.attempts[i], List.getElem_mem hlt, ?_⟩
    exact hlater.no_eq hi (List.getElem?_eq_getElem hlt)

/-- **A number is granted as often as an attempt carries it.** -/
def GrantInv (s : State) : Prop :=
  ∀ id no, s.granted.count (id, no) = (s.db.attemptNos id).count no

/-- An event that grants nothing is not a claim. -/
theorem Event.claim_or_starts (e : Event) :
    (∃ env input runAt attemptAt, e = .request env (.claim input runAt attemptAt)) ∨
      (e.grants = [] ∧ e.writer.starts = []) := by
  cases e with
  | request env req =>
    cases req with
    | claim input runAt attemptAt => exact .inl ⟨env, input, runAt, attemptAt, rfl⟩
    | _ => exact .inr ⟨rfl, rfl⟩
  | _ => exact .inr ⟨rfl, rfl⟩

/-- A committed event that is no claim leaves the numbers as they are. -/
theorem attemptNos_of_commit {s : State} (hs : Sound s) {e : Event} {db : Database}
    (hc : e.commit? s = some db) (hstarts : e.writer.starts = []) (id : RunId) :
    db.attemptNos id = s.db.attemptNos id := by
  cases hs.dbStep_of_commit hc with
  | @created env r hcreates hdb =>
    have hnone : r.attempts.map (·.no) = [] := by
      rw [← core_map_no, hcreates.created.1.attempts]; rfl
    unfold Database.attemptNos
    rw [hdb, List.getElem?_append]
    split
    · rfl
    · rename_i hge
      rw [List.getElem?_eq_none (Nat.le_of_not_lt hge)]
      -- The new run has no attempt, and no other run is there.
      cases hk : ([r] : List RunRows)[id - s.db.runs.length]? with
      | none => rfl
      | some x =>
        rw [List.mem_singleton.mp (List.mem_of_getElem? hk)]
        exact hnone
  | @wrote env j r r' hr hrow hdb =>
    unfold Database.attemptNos
    rw [hdb]
    by_cases hj : j = id
    · subst hj
      obtain ⟨hinv, hfrozen⟩ := hs.rows hr
      rw [List.getElem?_set_self (List.getElem?_eq_some_iff.mp hr).1, hr]
      have hnos := attemptNos_of_rowStep hr hinv hfrozen hrow
      rw [hstarts, List.append_nil] at hnos
      exact hnos
    · rw [List.getElem?_set_ne hj]

theorem GrantInv.step {s : State} (hs : Sound s) (h : GrantInv s) (e : Event) :
    GrantInv (step s e) := by
  unfold ControlPlane.step
  split
  · rename_i db hc
    intro id no
    change (s.granted ++ e.grants).count (id, no) = (db.attemptNos id).count no
    rw [List.count_append, h id no]
    rcases e.claim_or_starts with ⟨env, input, runAt, attemptAt, rfl⟩ | ⟨hgrants, hstarts⟩
    · obtain ⟨seen, r, r', hr, hclaim, hdb⟩ := claim_commit hc
      change _ + [(input.runId, input.attemptNo)].count (id, no) = _
      by_cases hid : input.runId = id
      · subst hid
        have hset : db.runs[input.runId]? = some r' := by
          rw [hdb, List.getElem?_set_self (List.getElem?_eq_some_iff.mp hr).1]
        rw [Database.attemptNos_of_some hr, Database.attemptNos_of_some hset,
          attemptNos_of_claim hclaim, List.count_append]
        congr 1
        by_cases hno : input.attemptNo = no
        · simp [hno]
        · simp [hno]
      · have hother : db.attemptNos id = s.db.attemptNos id := by
          unfold Database.attemptNos
          rw [hdb, List.getElem?_set_ne hid]
        rw [hother]
        simp [hid]
    · rw [hgrants, attemptNos_of_commit hs hc hstarts]
      rfl
  · exact h

theorem grantInv_of_reachable {s : State} (hs : machine.Reachable s) : GrantInv s := by
  have hboth : Sound s ∧ GrantInv s := by
    refine machine.invariant (P := fun s => Sound s ∧ GrantInv s) ⟨Sound.init, ?_⟩ ?_ hs
    · intro id no
      rfl
    · rintro s e ⟨hs, h⟩
      exact ⟨hs.step e, h.step hs e⟩
  exact hboth.2

/-! ## The claim a waiting run asks for -/

/-- No runtime takes part that reports an event under a key of the control
plane's own form. -/
def OwnKeys (es : List Event) : Prop :=
  ∀ e ∈ es, ∀ id n, e.writer ≠ .runtime (.platform id n)

/-- A key of the control plane's form is the run's own, under the number
it names. -/
def KeyInv (id : RunId) (r : RunRows) : Prop :=
  ∀ e ∈ r.traceEvents, ∀ j n, e.idempotencyKey = .platform j n → j = id ∧ n = e.runSequence

theorem KeyInv.of_own {id : RunId} {e : TraceEvent}
    (h : e.idempotencyKey = .platform id e.runSequence) {j : RunId} {n : ℕ}
    (hkey : e.idempotencyKey = .platform j n) : j = id ∧ n = e.runSequence := by
  rw [h] at hkey
  obtain ⟨rfl, rfl⟩ := EventKey.platform.inj hkey
  exact ⟨rfl, rfl⟩

theorem keyInv_of_ownKeys {es : List Event} (hes : OwnKeys es) {id : RunId} {r : RunRows}
    (hr : (machine.run es).db.runs[id]? = some r) : KeyInv id r := by
  refine rows_invariant_of_writers (W := fun w => ∀ id n, w ≠ .runtime (.platform id n))
    ?_ ?_ hes hr
  · intro db env r hcreates e he j n hkey
    exact KeyInv.of_own ((Creates.log hcreates).2.1 e he).1 hkey
  · intro db env id r r' w _ _ _ hP hw hrow e he j n hkey
    obtain ⟨added, hevents, -, -, hkeys⟩ := hrow.log
    rw [hevents, List.mem_append] at he
    rcases he with he | he
    · exact hP e he j n hkey
    · have hwrote := hkeys e he
      cases w with
      | runtime key =>
        have hreported : e.idempotencyKey = key := hwrote
        exact absurd (congrArg Writer.runtime (hreported.symm.trans hkey)) (hw j n)
      | _ => exact KeyInv.of_own hwrote hkey

/-- So the next number of a run is free. -/
theorem nextKey_free {es : List Event} (hes : OwnKeys es) (env : Env) {id : RunId} {r : RunRows}
    (hr : (machine.run es).db.runs[id]? = some r) :
    ((machine.run es).db.context env id).keyTaken (.platform id (r.run.lastSequence + 1)) =
      false := by
  simp only [Database.context, List.any_eq_false]
  intro x hx htaken
  obtain ⟨e, he, hkey⟩ := List.any_eq_true.mp htaken
  rw [decide_eq_true_eq] at hkey
  obtain ⟨j, hj⟩ := List.getElem?_of_mem hx
  obtain ⟨rfl, hseq⟩ := keyInv_of_ownKeys hes hj e he _ _ hkey
  obtain rfl := Option.some.inj (hj.symm.trans hr)
  have hmem : e.runSequence ∈ x.traceEvents.map (·.runSequence) := List.mem_map_of_mem he
  rw [(logInv_of_run es hr).numbered] at hmem
  have := (List.mem_range'_1.mp hmem).2
  omega

/-- An event is recorded when its key is free. -/
theorem recordEvent_ok {ctx : Context} {r : RunRows} {attemptId : Option AttemptId}
    {attemptSequence : ℕ} {type : TraceEventType} {payload : TracePayload} {key : ℕ → EventKey}
    {occurredAt : Time} (hlog : LogInv r)
    (hfree : ctx.keyTaken (key (r.run.lastSequence + 1)) = false)
    (hown : ∀ e ∈ r.traceEvents, e.idempotencyKey ≠ key (r.run.lastSequence + 1)) :
    ∃ r', recordEvent ctx r attemptId attemptSequence type payload key occurredAt = .ok r' := by
  have hunique : ∀ e ∈ r.traceEvents, e.idempotencyKey ≠ key (r.run.lastSequence + 1) ∧
      e.runSequence ≠ r.run.lastSequence + 1 := by
    intro e he
    refine ⟨hown e he, fun hseq => ?_⟩
    have hmem : e.runSequence ∈ r.traceEvents.map (·.runSequence) := List.mem_map_of_mem he
    rw [hlog.numbered] at hmem
    have := (List.mem_range'_1.mp hmem).2
    omega
  simp only [recordEvent, bind_eq_ok, require_eq_ok, pure_eq_ok]
  exact ⟨_, (), ⟨hfree, hunique⟩, rfl⟩

/-- A checked transition of the table commits when the next key is free. -/
theorem transitionRun_ok {ctx : Context} {r : RunRows} {source target : RunStatus}
    (htable : target ∈ source.transitions) (hstatus : r.run.status = source) (hlog : LogInv r)
    (hfree : ctx.keyTaken (.platform ctx.runId (r.run.lastSequence + 1)) = false)
    (hown : ∀ e ∈ r.traceEvents,
      e.idempotencyKey ≠ .platform ctx.runId (r.run.lastSequence + 1)) :
    ∃ r', transitionRun ctx source target r = .ok r' := by
  have hlog' : LogInv { r with run := { r.run with status := target } } := ⟨hlog.numbered⟩
  obtain ⟨r', h'⟩ := recordEvent_ok hlog' hfree hown
  simp only [transitionRun, bind_eq_ok, require_eq_ok]
  exact ⟨r', (), htable, (), hstatus, h'⟩

/-- The transaction of a claim commits for the number that comes next. -/
theorem claimAttempt_ok {ctx : Context} {seen r : RunRows} {input : ClaimInput}
    (hstatus : r.run.status = .dispatched) (hno : input.attemptNo = r.latestNo + 1)
    (hmax : input.attemptNo ≤ r.run.maxAttempts) (hlog : LogInv r)
    (hfree : ctx.keyTaken (.platform ctx.runId (r.run.lastSequence + 1)) = false)
    (hown : ∀ e ∈ r.traceEvents,
      e.idempotencyKey ≠ .platform ctx.runId (r.run.lastSequence + 1)) :
    ∃ r', claimAttempt ctx seen input r = .ok r' := by
  have hfirst : ∃ r₁, transitionRun ctx .dispatched .running (r.createAttempt {
      no := input.attemptNo, workerId := input.workerId, status := .running
      leaseExpiresAt := some (ctx.now + ctx.leaseTtlMs)
      leaseToken := some ctx.leaseToken }) = .ok r₁ :=
    transitionRun_ok (by decide) hstatus ⟨hlog.numbered⟩ hfree hown
  obtain ⟨r₁, h₁⟩ := hfirst
  -- The task is queued for the first attempt and running for a retry.
  have htail : ∀ x : RunRows, ∃ r', (if x.task.status = .queued then
      transitionTask ctx .queued .running x else pure x : Except ServiceError RunRows) = .ok r' := by
    intro x
    split
    · rename_i hqueued
      simp only [transitionTask, bind_eq_ok, require_eq_ok, pure_eq_ok]
      exact ⟨_, (), by decide, (), hqueued, rfl⟩
    · exact ⟨x, rfl⟩
  obtain ⟨r', h'⟩ := htail { r₁ with run := { r₁.run with
    activeStartedAt := some (seen.run.activeStartedAt.getD ctx.now) } }
  simp only [claimAttempt, bind_eq_ok, require_eq_ok]
  exact ⟨r', (), ⟨hstatus, hno, hmax⟩, r₁, h₁, h'⟩

/-- No version of a run has had an attempt its current one has not. -/
theorem not_existing {s : State} (hs : Sound s) {id : RunId} {r : RunRows}
    (hr : s.db.runs[id]? = some r) (version : ℕ) :
    ((s.runAt version id).any fun x => x.attempts.any fun a => a.no = r.attempts.length + 1) =
      false := by
  cases hx : s.runAt version id with
  | none => rfl
  | some x =>
    obtain ⟨v, hv, -, hxv⟩ := Sound.of_runAt hx
    obtain ⟨r', hr', hlater⟩ := hs.later_db hv id x hxv
    obtain rfl := Option.some.inj (hr'.symm.trans hr)
    have hle : x.attempts.length ≤ r'.attempts.length := by
      simpa [RunRows.core] using hlater.length_le
    have hinv := (hs.inv v hv x (List.mem_of_getElem? hxv)).1
    simp only [Option.any_some, List.any_eq_false, decide_eq_true_eq]
    intro a ha hno
    obtain ⟨i, hi⟩ := List.getElem?_of_mem ha
    have hlt := (List.getElem?_eq_some_iff.mp hi).1
    have := attempt_no hinv hi
    omega

/-- **A claim of the number that comes next is granted.** -/
theorem claim_granted {es : List Event} (hes : OwnKeys es) {id : RunId} {r : RunRows}
    (hr : (machine.run es).db.runs[id]? = some r) (hstatus : r.run.status = .dispatched)
    (hmax : r.attempts.length + 1 ≤ r.run.maxAttempts) (env : Env) (workerId : String)
    (attemptAt : ℕ) :
    (step (machine.run es) (.request env (.claim ⟨id, r.attempts.length + 1, workerId⟩
      (machine.run es).past.length attemptAt))).granted =
      (machine.run es).granted ++ [(id, r.attempts.length + 1)] := by
  have hs := sound_of_reachable (machine.reachable_run es)
  have hlog := logInv_of_run es hr
  have hfree := nextKey_free hes env hr
  generalize machine.run es = s at *
  have hinv := (hs.rows hr).1
  have hnow : s.runAt s.past.length id = some r := by simp [State.runAt, State.versions, hr]
  have hlatest : r.attempts.length + 1 = r.latestNo + 1 := by
    rw [← RunRows.core_latestNo, hinv.latestNo]
    simp [RunRows.core]
  have hown : ∀ e ∈ r.traceEvents,
      e.idempotencyKey ≠ .platform id (r.run.lastSequence + 1) := by
    intro e he hkey
    have htaken : (s.db.context env id).keyTaken (.platform id (r.run.lastSequence + 1)) := by
      simp only [Database.context, List.any_eq_true]
      exact ⟨r, List.mem_of_getElem? hr, e, he, by simpa using hkey⟩
    exact absurd (hfree.symm.trans htaken) (by decide)
  have hclaim : ∃ r', claimAttempt (s.db.context env id) r
      ⟨id, r.attempts.length + 1, workerId⟩ r = .ok r' :=
    claimAttempt_ok hstatus hlatest hmax hlog hfree hown
  obtain ⟨r', hr'⟩ := hclaim
  have hprep : (Request.claim ⟨id, r.attempts.length + 1, workerId⟩ s.past.length
      attemptAt).prepare s env = .ok (some ⟨id, fun ctx => claimAttempt ctx r
        ⟨id, r.attempts.length + 1, workerId⟩⟩) := by
    simp only [Request.prepare, hnow, not_existing hs hr attemptAt, orThrow]
    simp [require_of _ hstatus]
  have hcommit : (Request.claim ⟨id, r.attempts.length + 1, workerId⟩ s.past.length
      attemptAt).commit? s env = some { s.db with runs := s.db.runs.set id r' } := by
    unfold Request.commit?
    rw [hprep]
    refine toOption_eq_some.mpr ?_
    simp only [Database.transact, bind_eq_ok, orThrow_eq_ok, pure_eq_ok]
    exact ⟨r, hr, r', hr', rfl⟩
  unfold step
  simp only [Event.commit?, hcommit]
  rfl

/-! ## The result -/

/-- **The numbers of a run**: its attempts are `1..n`, no more than it may
have, and its commands are `1, 2, 3, …` in the order they were sent. -/
structure NumbersAgree (r : RunRows) : Prop where
  attempts : r.attempts.map (·.no) = List.range' 1 r.attempts.length
  attempts_le : r.attempts.length ≤ r.run.maxAttempts
  commands : r.outbox.map (·.payload.attemptNo) = List.range' 1 r.outbox.length

/-- **The next attempt was asked for**: the newest message of the run names
it, and is pending or has been on the stream. -/
def AskedFor (s : State) (r : RunRows) : Prop :=
  ∃ m, r.outbox.getLast? = some m ∧ m.payload.attemptNo = r.attempts.length + 1 ∧
    m.payload.attemptNo ≤ r.run.maxAttempts ∧ (m.status = .pending ∨ m.payload ∈ s.stream)

theorem dispatchInv_of_run (es : List Event) {id : RunId} {r : RunRows}
    (hr : (machine.run es).db.runs[id]? = some r) : r.core.DispatchInv :=
  core_invariant (P := fun c => c.DispatchInv) (fun hc _ => hc.dispatchInv)
    (fun hinv hP hs => hP.step hinv hs) es hr

theorem numbersAgree {r : RunRows} (hinv : r.core.StatusInv) (h : r.core.DispatchInv) :
    NumbersAgree r where
  attempts := by
    have := hinv.numbered
    rwa [core_map_no, RunRows.core, List.length_map] at this
  attempts_le := by simpa [RunRows.core] using h.attempts_le
  commands := by
    have := h.numbered
    simpa [RunRows.core, Function.comp_def] using this

theorem askedFor {s : State} {r : RunRows} (hmem : r ∈ s.db.runs) (hpublish : PublishInv s)
    (h : r.core.DispatchInv) (hstatus : r.run.status = .dispatched) : AskedFor s r := by
  obtain ⟨hlen, hmax⟩ := h.dispatched hstatus
  simp only [RunRows.core, List.length_map] at hlen hmax
  have hlt : r.attempts.length < r.outbox.length := by omega
  obtain ⟨m, hm⟩ : ∃ m, r.outbox[r.attempts.length]? = some m :=
    ⟨_, List.getElem?_eq_getElem hlt⟩
  have hlast : r.outbox.getLast? = some m := by
    rw [List.getLast?_eq_getElem?, hlen]
    exact hm
  have hno : m.payload.attemptNo = r.attempts.length + 1 := by
    have hmap : r.core.commands[r.attempts.length]? = some m.payload := by
      simp [RunRows.core, hm]
    have hnum : (r.core.commands.map (·.attemptNo))[r.attempts.length]? =
        some m.payload.attemptNo := by
      rw [List.getElem?_map, hmap]; rfl
    rw [h.numbered, List.getElem?_range' (by simpa [RunRows.core] using hlt)] at hnum
    have := Option.some.inj hnum
    omega
  refine ⟨m, hlast, hno, ?_, hpublish r hmem m (List.mem_of_getElem? hm)⟩
  omega

/-- **A claim of any other number, or of a run that does not wait, changes
nothing.** -/
theorem claim_refused {s : State} (hs : Sound s) {id : RunId} {r : RunRows}
    (hr : s.db.runs[id]? = some r) {input : ClaimInput} (hid : input.runId = id)
    (hother : r.run.status ≠ .dispatched ∨ input.attemptNo ≠ r.attempts.length + 1) (env : Env)
    (runAt attemptAt : ℕ) :
    step s (.request env (.claim input runAt attemptAt)) = s := by
  refine step_of_not_commit ?_
  cases hc : (Request.claim input runAt attemptAt).commit? s env with
  | none => rfl
  | some db =>
    obtain ⟨seen, r₀, r', hr₀, hclaim, -⟩ := claim_commit hc
    rw [hid] at hr₀
    obtain rfl := Option.some.inj (hr.symm.trans hr₀)
    simp only [claimAttempt, bind_eq_ok, require_eq_ok] at hclaim
    obtain ⟨-, ⟨hstatus, hno, -⟩, -⟩ := hclaim
    rw [← RunRows.core_latestNo, (hs.rows hr).1.latestNo] at hno
    rcases hother with hne | hne
    · exact absurd hstatus hne
    · exact absurd (by simpa [RunRows.core] using hno) hne

/-- Each number up to the last attempt's was granted once, and no other. -/
theorem granted_once {es : List Event} {id : RunId} {r : RunRows}
    (hr : (machine.run es).db.runs[id]? = some r) (no : ℕ) :
    (machine.run es).granted.count (id, no) =
      if 1 ≤ no ∧ no ≤ r.attempts.length then 1 else 0 := by
  have hreach := machine.reachable_run es
  have hinv := ((sound_of_reachable hreach).rows hr).1
  rw [grantInv_of_reachable hreach, Database.attemptNos_of_some hr,
    (numbersAgree hinv (dispatchInv_of_run es hr)).attempts, List.Nodup.count List.nodup_range']
  refine if_congr ?_ rfl rfl
  rw [List.mem_range'_1]
  omega

/-- **No dispatched run is orphaned, and no command yields two attempts.**
In every reachable state, the attempts and the commands of a run are
numbered without a gap or a repeat; a run that waits has asked for the next
attempt, and a claim of it is granted; every other claim changes nothing,
and each attempt was granted to one caller. -/
theorem no_orphans (es : List Event) {id : RunId} {r : RunRows}
    (hr : (machine.run es).db.runs[id]? = some r) :
    NumbersAgree r ∧
      (r.run.status = .dispatched → AskedFor (machine.run es) r ∧
        (OwnKeys es → ∀ (env : Env) (workerId : String) (attemptAt : ℕ),
          (step (machine.run es) (.request env (.claim ⟨id, r.attempts.length + 1, workerId⟩
            (machine.run es).past.length attemptAt))).granted =
            (machine.run es).granted ++ [(id, r.attempts.length + 1)])) ∧
      (∀ (env : Env) (input : ClaimInput) (runAt attemptAt : ℕ), input.runId = id →
        r.run.status ≠ .dispatched ∨ input.attemptNo ≠ r.attempts.length + 1 →
        step (machine.run es) (.request env (.claim input runAt attemptAt)) = machine.run es) ∧
      ∀ no, (machine.run es).granted.count (id, no) =
        if 1 ≤ no ∧ no ≤ r.attempts.length then 1 else 0 := by
  have hreach := machine.reachable_run es
  have hs := sound_of_reachable hreach
  have hdispatch := dispatchInv_of_run es hr
  have hnumbers := numbersAgree (hs.rows hr).1 hdispatch
  refine ⟨hnumbers, fun hstatus => ?_, ?_, granted_once hr⟩
  · have hasked := askedFor (List.mem_of_getElem? hr) (publishInv_of_reachable hreach) hdispatch
      hstatus
    refine ⟨hasked, fun hes env workerId attemptAt => ?_⟩
    obtain ⟨m, -, hno, hmax, -⟩ := hasked
    exact claim_granted hes hr hstatus (hno ▸ hmax) env workerId attemptAt
  · intro env input runAt attemptAt hid hother
    exact claim_refused hs hr hid hother env runAt attemptAt

/-- A run that was confirmed, published and claimed, and whose attempt
failed. -/
def retriedRun : List Event := [
  .confirm (envAt 0) (smallConfirm "key") 0,
  .publish 0 0 0 1,
  .request (envAt 0) (.markPublished 0 0),
  claimAt 1000 0 1 2,
  .request (envAt 2000) (.complete ⟨0, 0⟩ (some 7) (.failed .toolExecError {}) (checkAt 2000 3)
    ⟨3, 3⟩)]

/-- Its second attempt is asked for and can be claimed, and a redelivery of
the first command is refused. -/
theorem no_orphans_of_retried :
    ∃ r, (machine.run retriedRun).db.runs[0]? = some r ∧ r.run.status = .dispatched ∧
      NumbersAgree r ∧ AskedFor (machine.run retriedRun) r ∧
      step (machine.run retriedRun) (claimAt 3000 0 1 1) = machine.run retriedRun := by
  obtain ⟨r, hr⟩ : ∃ r, (machine.run retriedRun).db.runs[0]? = some r := ⟨_, rfl⟩
  have hstatus : r.run.status = .dispatched := by
    have : ((machine.run retriedRun).db.runs[0]?).map (·.run.status) = some .dispatched := by decide
    rw [hr] at this
    exact Option.some.inj this
  have hlen : r.attempts.length = 1 := by
    have : ((machine.run retriedRun).db.runs[0]?).map (·.attempts.length) = some 1 := by decide
    rw [hr] at this
    exact Option.some.inj this
  obtain ⟨hnumbers, hwaits, hrefused, -⟩ := no_orphans retriedRun hr
  exact ⟨r, hr, hstatus, hnumbers, (hwaits hstatus).1,
    hrefused _ _ _ _ rfl (.inr (by rw [hlen]; decide))⟩

end ControlPlane

end AgentReliability
