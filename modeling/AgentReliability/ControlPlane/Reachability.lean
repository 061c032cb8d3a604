import AgentReliability.ControlPlane.Refinement
import AgentReliability.ControlPlane.System
/-!
# What every reachable control plane satisfies

Every version that was ever committed is sound: the rows of each run meet
the invariants, and a later version is `Later` than an earlier one, run by
run. So a read of any version, however old, has `Captured` what the
transactions need of it, and every committed transaction is a step of the
abstract run. The rules at the end lift an invariant of one run, and a
relation between two moments of one run, to the machine.
-/

namespace AgentReliability

namespace ControlPlane

/-! ## What one event does to the database -/

/-- **A committed transaction on the rows of one run**, and whose it is. -/
inductive RowStep (ctx : Context) (r r' : RunRows) : Writer → Prop
  | claim {seen : RunRows} {input : ClaimInput} (h : claimAttempt ctx seen input r = .ok r') :
      RowStep ctx r r' (.claimant input.attemptNo)
  | heartbeat {i : ℕ} (h : heartbeat ctx i r = .ok r') : RowStep ctx r r' .lifecycle
  | complete {seen : RunRows} {i no : ℕ} {outcome : Outcome} (hcap : Captured seen r i no)
      (h : completeAttempt ctx seen i no outcome r = .ok r') : RowStep ctx r r' .lifecycle
  | leaseExpired {seen : RunRows} {i no : ℕ} (hcap : Captured seen r i no)
      (h : handleLeaseExpired ctx seen i no r = .ok r') : RowStep ctx r r' .lifecycle
  | saveCheckpoint {input : Checkpoint} (h : saveCheckpoint ctx input r = .ok r') :
      RowStep ctx r r' .lifecycle
  | phase {i : ℕ} {token : Option LeaseToken} {p : Phase} {detail : Option String}
      (h : phase ctx i token p detail r = .ok r') : RowStep ctx r r' .lifecycle
  | environment {i environmentId : ℕ} {token : Option LeaseToken} {imageId : String}
      {resolved : Option String}
      (h : environment ctx i token imageId environmentId resolved r = .ok r') :
      RowStep ctx r r' .lifecycle
  | pause {i : ℕ} {token : Option LeaseToken} {reason : String} {patch : Option String}
      (h : pause ctx i token reason patch r = .ok r') : RowStep ctx r r' .lifecycle
  | cancel (h : cancel ctx r = .ok r') : RowStep ctx r r' .lifecycle
  | resume (h : resume ctx r = .ok r') : RowStep ctx r r' .lifecycle
  | reserve {attemptId : AttemptId} {token : Option LeaseToken} {id : CallId} {reserved : ℕ}
      (h : reserve ctx attemptId token id reserved r = .ok r') : RowStep ctx r r' (.spender id)
  | settle {id : CallId} {used : Option ℕ} (h : settle ctx id used r = .ok r') :
      RowStep ctx r r' .bookkeeping
  | ingest {event : ReportedEvent} (h : ingest ctx event r = .ok r') :
      RowStep ctx r r' (.runtime event.idempotencyKey)
  | message {j : ℕ} {f : OutboxMessage → OutboxMessage}
      (hf : ∀ m, (f m).payload = m.payload ∧ ((f m).status = m.status ∨ (f m).status = .pending))
      (h : updateMessage j f r = .ok r') : RowStep ctx r r' .bookkeeping
  | markPublished {j : ℕ} (h : markPublished ctx j r = .ok r') : RowStep ctx r r' .publisher

/-- The rows of a new run. -/
inductive Creates (ctx : Context) (r : RunRows) : Prop
  | createTask {runs : List RunRows} {input : CreateTaskInput}
      (h : createTask ctx runs input = .ok r)
  | confirm {snapshot : TaskSnapshot} {key : String} (h : r = snapshotRows ctx snapshot key)

/-- **What a committed event does**: it appends the rows of a new run, or
it writes the rows of one, in the environment it came with. -/
inductive DbStep (w : Writer) (env? : Option Env) (db db' : Database) : Prop
  | created {env : Env} {r : RunRows} (h : Creates (db.context env db.runs.length) r)
      (hdb : db'.runs = db.runs ++ [r]) (henv : env? = some env)
  | wrote {env : Env} {id : RunId} {r r' : RunRows} (hr : db.runs[id]? = some r)
      (h : RowStep (db.context env id) r r' w) (hdb : db'.runs = db.runs.set id r')
      (henv : env? = some env)

theorem Creates.created {ctx : Context} {r : RunRows} (h : Creates ctx r) :
    r.core.Created ∧ r.core.BudgetFrozen := by
  cases h with
  | createTask h => exact createTask_created h
  | confirm h => subst h; exact snapshotRows_created

/-- The ids of a run's own calls are among the ids that are taken. -/
theorem callTaken_of_mem {db : Database} {env : Env} {id : RunId} {r : RunRows}
    (hr : db.runs[id]? = some r) :
    ∀ call ∈ r.budgetCalls, (db.context env id).callTaken call.id = true := by
  intro call hcall
  have hmem : r ∈ db.runs := List.mem_of_getElem? hr
  simp only [Database.context, List.any_eq_true, decide_eq_true_eq]
  exact ⟨r, hmem, call, hcall, rfl⟩

/-- **A transaction refines a step of the abstract run.** -/
theorem RowStep.core {db : Database} {env : Env} {id : RunId} {r r' : RunRows} {w : Writer}
    (hr : db.runs[id]? = some r) (hinv : r.core.StatusInv) (hfrozen : r.core.BudgetFrozen)
    (h : RowStep (db.context env id) r r' w) : RunCore.Step r.core r'.core := by
  cases h with
  | claim h => exact claimAttempt_step h
  | heartbeat h => rw [heartbeat_core h]; exact .stay _
  | complete hcap h => exact completeAttempt_step hinv hfrozen hcap h
  | leaseExpired hcap h => exact handleLeaseExpired_step hinv hfrozen hcap h
  | saveCheckpoint h => exact saveCheckpoint_step h
  | phase h => rw [phase_core h]; exact .stay _
  | environment h => rw [environment_core h]; exact .stay _
  | pause h => exact pause_step hinv h
  | cancel h => exact cancel_step hinv h
  | resume h => exact resume_step hfrozen h
  | reserve h => exact reserve_step hinv (callTaken_of_mem hr) h
  | settle h => exact settle_step h
  | ingest h => rw [ingest_core h]; exact .stay _
  | message hf h => rw [updateMessage_core (fun m => (hf m).1) h]; exact .stay _
  | markPublished h => rw [markPublished_core h]; exact .stay _

/-- A new run meets the invariants. -/
theorem RunCore.Created.statusInv {c : RunCore} (h : c.Created) : c.StatusInv :=
  RunCore.StatusInv.of_idle (fun {j m} hj => by simp [RunCore.Executing, h.attempts] at hj)
    (by rw [h.status]; decide) (by rw [h.attempts]; rfl) (by rw [h.attempts]; simp)
    (by rw [h.task, h.status]; simp [RunCore.taskOf]) (by rw [h.approvals, h.status]; rfl)

theorem RunCore.Created.dispatchInv {c : RunCore} (h : c.Created) : c.DispatchInv := by
  obtain ⟨command, hcommands, hno, -⟩ := h.command
  refine ⟨by rw [h.attempts]; exact Nat.zero_le _, ?_, fun _ => ?_, fun hs => ?_⟩
  · rw [hcommands]
    simp [hno]
  · rw [hcommands, h.attempts]
    exact ⟨rfl, h.maxAttempts_pos⟩
  · rw [h.status] at hs
    exact absurd hs (by decide)

/-- No attempt of the run executes. -/
def RunRows.Idle (r : RunRows) : Prop :=
  ∀ a ∈ r.attempts, a.status ≠ .running ∧ a.status ≠ .claimed

theorem RunRows.Idle.getElem? {r : RunRows} (h : r.Idle) {i : ℕ} {a : Attempt}
    (ha : r.attempts[i]? = some a) : a.status ≠ .running ∧ a.status ≠ .claimed :=
  h a (List.mem_of_getElem? ha)

theorem RunRows.Idle.not_executing {r : RunRows} (h : r.Idle) {i no : ℕ} :
    ¬ r.core.Executing i no := by
  intro hi
  rw [RunCore.Executing, RunRows.core_attempts_getElem?] at hi
  obtain ⟨a, ha, hstate⟩ := Option.map_eq_some_iff.mp hi
  exact (h.getElem? ha).1 (congrArg AttemptState.status hstate)

theorem RunCore.StatusInv.idle {r : RunRows} (hinv : r.core.StatusInv)
    (hrun : r.run.status ≠ .running) : r.Idle := by
  intro a ha
  obtain ⟨i, hi⟩ := List.getElem?_of_mem ha
  exact ⟨fun hr => hrun (hinv.executing (RunRows.executing_of_running hi hr)).2,
    hinv.unclaimed _ (List.mem_map_of_mem ha)⟩

/-- **An idle run is only claimed, cancelled or resumed.** Every other
lifecycle transaction aborts, or finds nothing to do. -/
theorem RowStep.idle {ctx : Context} {r r' : RunRows} (hidle : r.Idle)
    (h : RowStep ctx r r' .lifecycle) :
    r' = r ∨ ControlPlane.cancel ctx r = .ok r' ∨ ControlPlane.resume ctx r = .ok r' := by
  cases h with
  | heartbeat h =>
    simp only [ControlPlane.heartbeat, bind_eq_ok, require_eq_ok, orThrow_eq_ok] at h
    obtain ⟨a, ha, -, hr, -⟩ := h
    exact absurd hr (by simp [hidle.getElem? ha])
  | @complete seen i no outcome hcap h =>
    cases outcome with
    | succeeded extras =>
      simp only [completeAttempt, completeSucceeded, bind_eq_ok, require_eq_ok,
        orThrow_eq_ok] at h
      obtain ⟨a, ha, -, ⟨hr, -⟩, -⟩ := h
      exact absurd hr (hidle.getElem? ha).1
    | failed code extras =>
      simp only [completeAttempt, completeFailed, bind_eq_ok, require_eq_ok, orThrow_eq_ok] at h
      obtain ⟨a, ha, -, hr, -⟩ := h
      exact absurd hr (hidle.getElem? ha).1
  | leaseExpired hcap h =>
    unfold handleLeaseExpired at h
    split at h
    · exact .inl (pure_eq_ok.mp h).symm
    · rename_i a ha
      rw [if_neg (by simp [leaseLost, hidle.getElem? ha])] at h
      exact .inl (pure_eq_ok.mp h).symm
  | saveCheckpoint h =>
    simp only [ControlPlane.saveCheckpoint, bind_eq_ok, require_eq_ok, orThrow_eq_ok] at h
    obtain ⟨-, -, -, -, a, ha, -, ⟨hr, -⟩, -⟩ := h
    exact absurd hr (hidle.getElem? ha).1
  | phase h => obtain ⟨⟨a, -, hi⟩, -⟩ := withLease_ok h; exact absurd hi hidle.not_executing
  | environment h => obtain ⟨⟨a, -, hi⟩, -⟩ := withLease_ok h; exact absurd hi hidle.not_executing
  | pause h => obtain ⟨⟨a, -, hi⟩, -⟩ := withLease_ok h; exact absurd hi hidle.not_executing
  | cancel h => exact .inr (.inl h)
  | resume h => exact .inr (.inr h)

theorem RowStep.of_idle {ctx : Context} {r r' : RunRows} (hinv : r.core.StatusInv)
    (hrun : r.run.status ≠ .running) (h : RowStep ctx r r' .lifecycle) :
    r' = r ∨ ControlPlane.cancel ctx r = .ok r' ∨ ControlPlane.resume ctx r = .ok r' :=
  h.idle (hinv.idle hrun)

/-- A reservation is made by the attempt that executes. -/
theorem running_of_reserve {ctx : Context} {r r' : RunRows} {attemptId : AttemptId}
    {token : Option LeaseToken} {id : CallId} {reserved : ℕ} (hinv : r.core.StatusInv)
    (h : reserve ctx attemptId token id reserved r = .ok r') : r.run.status = .running := by
  simp only [reserve, bind_eq_ok, require_eq_ok, orThrow_eq_ok] at h
  obtain ⟨-, -, a, ha, -, ⟨-, hrun, -⟩, -⟩ := h
  exact (hinv.executing (RunRows.executing_of_running ha hrun)).2

/-! ## Versions -/

/-- Run by run, what a later version keeps of an earlier one. -/
def DbLater (v w : Database) : Prop :=
  ∀ (id : RunId) (r : RunRows), v.runs[id]? = some r →
    ∃ r' : RunRows, w.runs[id]? = some r' ∧ r.core.Later r'.core

theorem DbLater.refl (v : Database) : DbLater v v := fun _ r hr => ⟨r, hr, RunCore.Later.refl _⟩

theorem DbLater.trans {u v w : Database} (h₁ : DbLater u v) (h₂ : DbLater v w) : DbLater u w := by
  intro id r hr
  obtain ⟨r', hr', hlater⟩ := h₁ id r hr
  obtain ⟨r'', hr'', hlater'⟩ := h₂ id r' hr'
  exact ⟨r'', hr'', hlater.trans hlater'⟩

/-- A request that commits writes the rows of one run. -/
theorem Request.commit_eq_some {s : State} {env : Env} {req : Request} {db : Database}
    (h : req.commit? s env = some db) :
    ∃ (tx : Transaction) (r r' : RunRows), req.prepare s env = .ok (some tx) ∧
      s.db.runs[tx.runId]? = some r ∧ tx.body (s.db.context env tx.runId) r = .ok r' ∧
      db = { s.db with runs := s.db.runs.set tx.runId r' } := by
  unfold Request.commit? at h
  split at h
  · rename_i tx hprep
    rw [toOption_eq_some] at h
    simp only [Database.transact, bind_eq_ok, orThrow_eq_ok, pure_eq_ok] at h
    obtain ⟨r, hr, r', hbody, rfl⟩ := h
    exact ⟨tx, r, r', hprep, hr, hbody, rfl⟩
  · exact absurd h (by simp)

/-- **The soundness of a state**: of every version ever committed. -/
structure Sound (s : State) : Prop where
  inv : ∀ v ∈ s.versions, ∀ r ∈ v.runs, r.core.StatusInv ∧ r.core.BudgetFrozen
  later : s.versions.Pairwise DbLater

namespace Sound

variable {s : State}

theorem later_of_le (h : Sound s) {j k : ℕ} {v w : Database} (hjk : j ≤ k)
    (hv : s.versions[j]? = some v) (hw : s.versions[k]? = some w) : DbLater v w := by
  rcases Nat.eq_or_lt_of_le hjk with rfl | hlt
  · rw [hv] at hw
    rw [Option.some.inj hw]
    exact DbLater.refl w
  · obtain ⟨hj, rfl⟩ := List.getElem?_eq_some_iff.mp hv
    obtain ⟨hk, rfl⟩ := List.getElem?_eq_some_iff.mp hw
    exact List.pairwise_iff_getElem.mp h.later j k hj hk hlt

theorem db_mem : s.db ∈ s.versions := by simp [State.versions]

theorem later_db (h : Sound s) {v : Database} (hv : v ∈ s.versions) : DbLater v s.db := by
  obtain ⟨j, hj⟩ := List.getElem?_of_mem hv
  have hlast : s.versions[s.past.length]? = some s.db := by simp [State.versions]
  refine h.later_of_le ?_ hj hlast
  have hlt := (List.getElem?_eq_some_iff.mp hj).1
  simp only [State.versions, List.length_append, List.length_singleton] at hlt
  omega

/-- A run found in a version. -/
theorem of_runAt {k : ℕ} {id : RunId} {r : RunRows} (hr : s.runAt k id = some r) :
    ∃ v ∈ s.versions, s.versions[k]? = some v ∧ v.runs[id]? = some r := by
  obtain ⟨v, hv, hrun⟩ := Option.bind_eq_some_iff.mp hr
  exact ⟨v, List.mem_of_getElem? hv, hv, hrun⟩

/-- **A read of any age has captured what its transaction needs.** The
invariants of the version the run was read in say that an attempt
executing there has its run running, and an attempt that executes now
executed there. -/
theorem captured (h : Sound s) {readAt : ReadAt} {id : AttemptId} {a : Attempt}
    {seen r : RunRows} (hread : s.read readAt id = some (a, seen))
    (hr : s.db.runs[id.runId]? = some r) : Captured seen r id.index a.no := by
  unfold State.read at hread
  split at hread
  · rename_i hle
    simp only [Option.bind_eq_bind, Option.bind_eq_some_iff, Option.some.injEq,
      Prod.mk.injEq] at hread
    obtain ⟨before, hbefore, a', ha, seen', hseen, rfl, rfl⟩ := hread
    obtain ⟨v, hvmem, hv, hvr⟩ := of_runAt hbefore
    obtain ⟨w, hwmem, hw, hwr⟩ := of_runAt hseen
    obtain ⟨x, hx, hvw⟩ := h.later_of_le hle hv hw _ _ hvr
    obtain ⟨y, hy, hwdb⟩ := h.later_db hwmem _ _ hwr
    obtain ⟨z, hz, hvdb⟩ := h.later_db hvmem _ _ hvr
    rw [hwr] at hx
    rw [hr] at hy hz
    obtain rfl := Option.some.inj hx
    obtain rfl := Option.some.inj hy
    obtain rfl := Option.some.inj hz
    have hstate : before.core.attempts[id.index]? = some a'.state := by
      rw [RunRows.core_attempts_getElem?, ha]; rfl
    refine ⟨hwdb.snapshot.symm, fun b hb => ?_, fun hi => ?_⟩
    · have hb' : r.core.attempts[id.index]? = some b.state := by
        rw [RunRows.core_attempts_getElem?, hb]; rfl
      exact hvdb.no_eq hstate hb'
    · have hlt : id.index < seen'.core.attempts.length :=
        (List.getElem?_eq_some_iff.mp hstate).1.trans_le hvw.length_le
      have hseenInv := (h.inv w hwmem seen' (List.mem_of_getElem? hwr)).1
      exact (hseenInv.executing (hwdb.executing hlt hi)).2
  · exact absurd hread (by simp)

/-- The first version is empty. -/
theorem init : Sound machine.init where
  inv := by
    intro v hv r hr
    simp only [machine, State.versions, List.nil_append, List.mem_singleton] at hv
    subst hv
    exact absurd hr (by simp)
  later := by simp [machine, State.versions]

end Sound

/-! ### What commits is a transaction on one run -/

/-- Every read of an attempt and its run has captured what the
transactions on the run need. -/
structure Captures (s : State) : Prop where
  captured : ∀ {readAt : ReadAt} {id : AttemptId} {a : Attempt} {seen r : RunRows},
    s.read readAt id = some (a, seen) → s.db.runs[id.runId]? = some r →
      Captured seen r id.index a.no

theorem Sound.captures {s : State} (h : Sound s) : Captures s := ⟨fun hread hr => h.captured hread hr⟩

namespace Captures

variable {s : State}

/-- **Whatever it read before, a request goes on to a transaction of the
right kind.** -/
theorem rowStep_of_prepare (h : Captures s) {env : Env} {req : Request} {tx : Transaction}
    (hprep : req.prepare s env = .ok (some tx)) {r r' : RunRows}
    (hr : s.db.runs[tx.runId]? = some r)
    (hbody : tx.body (s.db.context env tx.runId) r = .ok r') :
    RowStep (s.db.context env tx.runId) r r' req.writer := by
  cases Request.goesTo hprep with
  | claim => exact .claim hbody
  | heartbeat => exact .heartbeat hbody
  | complete hlease hread => exact .complete (h.captured hread hr) hbody
  | saveCheckpoint => exact .saveCheckpoint hbody
  | leaseExpired hread => exact .leaseExpired (h.captured hread hr) hbody
  | phase => exact .phase hbody
  | pause => exact .pause hbody
  | @pauseRun runId readAt i a =>
    have hpause : pause (s.db.context env runId) i a.leaseToken "PAUSED_BY_USER" none r = .ok r' :=
      hbody
    exact .pause hpause
  | cancel => exact .cancel hbody
  | resume => exact .resume hbody
  | reserve => exact .reserve hbody
  | settle => exact .settle hbody
  | ingest => exact .ingest hbody
  | markPublished => exact .markPublished hbody
  | countFailure =>
    refine .message ?_ hbody
    exact fun _ => ⟨rfl, .inl rfl⟩
  | republish =>
    refine .message ?_ hbody
    exact fun _ => ⟨rfl, .inr rfl⟩

/-- **A committed event creates a run or writes the rows of one.** -/
theorem dbStep_of_commit (h : Captures s) {e : Event} {db : Database}
    (hc : e.commit? s = some db) : DbStep e.writer e.env? s.db db := by
  cases e with
  | createTask env input =>
    obtain ⟨r, hr, rfl⟩ := Option.map_eq_some_iff.mp hc
    exact .created (.createTask (toOption_eq_some.mp hr)) rfl rfl
  | confirm env input readAt =>
    obtain ⟨r, hr, rfl⟩ := Option.map_eq_some_iff.mp hc
    unfold confirmed? at hr
    split at hr
    · exact absurd hr (by simp)
    · split at hr
      · rename_i rows hconfirm
        obtain rfl := Option.some.inj hr
        exact .created (.confirm (confirm_created hconfirm)) rfl rfl
      · exact absurd hr (by simp)
  | request env req =>
    obtain ⟨tx, r, r', hprep, hr, hbody, rfl⟩ := Request.commit_eq_some hc
    exact .wrote hr (h.rowStep_of_prepare hprep hr hbody) rfl rfl
  | environment env id token fingerprint imageId log =>
    obtain ⟨db', hdb', rfl⟩ := Option.map_eq_some_iff.mp hc
    rw [toOption_eq_some] at hdb'
    simp only [Database.transact, bind_eq_ok, orThrow_eq_ok, pure_eq_ok] at hdb'
    obtain ⟨r, hr, r', hbody, rfl⟩ := hdb'
    exact .wrote hr (.environment hbody) rfl rfl
  | publish => exact absurd hc (by simp [Event.commit?])

end Captures

namespace Sound

variable {s : State}

theorem rowStep_of_prepare (h : Sound s) {env : Env} {req : Request} {tx : Transaction}
    (hprep : req.prepare s env = .ok (some tx)) {r r' : RunRows}
    (hr : s.db.runs[tx.runId]? = some r)
    (hbody : tx.body (s.db.context env tx.runId) r = .ok r') :
    RowStep (s.db.context env tx.runId) r r' req.writer :=
  h.captures.rowStep_of_prepare hprep hr hbody

theorem dbStep_of_commit (h : Sound s) {e : Event} {db : Database} (hc : e.commit? s = some db) :
    DbStep e.writer e.env? s.db db :=
  h.captures.dbStep_of_commit hc

/-- The rows after a committed event, each with where they came from. -/
theorem rows_of_dbStep (h : Sound s) {db : Database} {w : Writer} {env? : Option Env}
    (hstep : DbStep w env? s.db db) {id : RunId}
    {r' : RunRows} (hr' : db.runs[id]? = some r') :
    (r'.core.Created ∧ r'.core.BudgetFrozen) ∨
      ∃ r, s.db.runs[id]? = some r ∧ RunCore.Step r.core r'.core := by
  cases hstep with
  | @created env r hcreates hdb =>
    rw [hdb, List.getElem?_append] at hr'
    split at hr'
    · exact .inr ⟨r', hr', .stay _⟩
    · have hmem := List.mem_of_getElem? hr'
      rw [List.mem_singleton.mp hmem]
      exact .inl hcreates.created
  | @wrote env j r r'' hr hrow hdb =>
    rw [hdb, List.getElem?_set] at hr'
    split at hr'
    · rename_i hj
      subst hj
      split at hr'
      · obtain rfl := Option.some.inj hr'
        obtain ⟨hinv, hfrozen⟩ := h.inv s.db db_mem r (List.mem_of_getElem? hr)
        exact .inr ⟨r, hr, hrow.core hr hinv hfrozen⟩
      · exact absurd hr' (by simp)
    · exact .inr ⟨r', hr', .stay _⟩

theorem dbLater_of_dbStep (h : Sound s) {db : Database} {w : Writer} {env? : Option Env}
    (hstep : DbStep w env? s.db db) :
    DbLater s.db db := by
  intro id r hr
  cases hstep with
  | created _ hdb =>
    refine ⟨r, ?_, RunCore.Later.refl _⟩
    rw [hdb, List.getElem?_append_left (List.getElem?_eq_some_iff.mp hr).1]
    exact hr
  | @wrote env j x x' hx hrow hdb =>
    rw [hdb]
    by_cases hj : j = id
    · subst hj
      obtain rfl := Option.some.inj (hr.symm.trans hx)
      have hlt := (List.getElem?_eq_some_iff.mp hr).1
      obtain ⟨hinv, hfrozen⟩ := h.inv s.db db_mem r (List.mem_of_getElem? hr)
      exact ⟨x', by rw [List.getElem?_set_self hlt], .of_step (hrow.core hr hinv hfrozen)⟩
    · exact ⟨r, by rw [List.getElem?_set_ne hj]; exact hr, RunCore.Later.refl _⟩

/-- One more version, whose runs meet the invariants and are later. -/
theorem extend (h : Sound s) {db : Database}
    (hinv : ∀ r ∈ db.runs, r.core.StatusInv ∧ r.core.BudgetFrozen) (hlater : DbLater s.db db) :
    Sound (s.commit db) := by
  have hversions : (s.commit db).versions = s.versions ++ [db] := rfl
  refine ⟨fun v hv r hr => ?_, ?_⟩
  · rw [hversions, List.mem_append, List.mem_singleton] at hv
    rcases hv with hv | rfl
    · exact h.inv v hv r hr
    · exact hinv r hr
  · rw [hversions]
    refine List.pairwise_append.mpr ⟨h.later, List.pairwise_singleton _ _, fun v hv w hw => ?_⟩
    rw [List.mem_singleton.mp hw]
    exact (h.later_db hv).trans hlater

/-- A committed step keeps the state sound. -/
theorem commit (h : Sound s) {db : Database} {w : Writer} {env? : Option Env}
    (hstep : DbStep w env? s.db db) :
    Sound (s.commit db) := by
  refine h.extend (fun r hr => ?_) (h.dbLater_of_dbStep hstep)
  obtain ⟨id, hid⟩ := List.getElem?_of_mem hr
  rcases h.rows_of_dbStep hstep hid with ⟨hcreated, hfrozen⟩ | ⟨r₀, hr₀, hcore⟩
  · exact ⟨hcreated.statusInv, hfrozen⟩
  · obtain ⟨hinv, hfrozen⟩ := h.inv s.db db_mem r₀ (List.mem_of_getElem? hr₀)
    exact ⟨hinv.step hcore, (RunCore.Later.of_step hcore).budgetFrozen hfrozen⟩

/-- So does a write of one run that its abstraction does not show. -/
theorem rewrite (h : Sound s) {id : RunId} {r r' : RunRows} {db : Database}
    (hr : s.db.runs[id]? = some r) (hcore : r'.core = r.core)
    (hruns : db.runs = s.db.runs.set id r') : Sound (s.commit db) := by
  obtain ⟨hinv, hfrozen⟩ := h.inv s.db db_mem r (List.mem_of_getElem? hr)
  refine h.extend (fun x hx => ?_) fun j x hx => ?_
  · rw [hruns] at hx
    rcases List.mem_or_eq_of_mem_set hx with hx | rfl
    · exact h.inv s.db db_mem x hx
    · rw [hcore]
      exact ⟨hinv, hfrozen⟩
  · rw [hruns]
    by_cases hj : id = j
    · subst hj
      obtain rfl := Option.some.inj (hx.symm.trans hr)
      refine ⟨r', List.getElem?_set_self (List.getElem?_eq_some_iff.mp hr).1, ?_⟩
      rw [hcore]
      exact .refl _
    · exact ⟨x, by rw [List.getElem?_set_ne hj]; exact hx, .refl _⟩

/-- **Every event keeps the state sound.** -/
theorem step (h : Sound s) (e : Event) : Sound (step s e) := by
  unfold ControlPlane.step
  split
  · rename_i db hc
    have hcommit := h.commit (h.dbStep_of_commit hc)
    exact ⟨hcommit.inv, hcommit.later⟩
  · exact ⟨h.inv, h.later⟩

end Sound

theorem sound_of_reachable {s : State} (hs : machine.Reachable s) : Sound s :=
  machine.invariant Sound.init (fun _ e h => h.step e) hs

/-! ## The rules the claims about runs are proved by -/

/-- A step of the machine, seen from the database. -/
theorem db_step (s : State) (e : Event) :
    (∃ db, e.commit? s = some db ∧ (step s e).db = db) ∨ (step s e).db = s.db := by
  unfold step
  split
  · rename_i db hc
    exact .inl ⟨db, hc, rfl⟩
  · exact .inr rfl

/-- **A request that does not commit changes nothing at all.** -/
theorem step_of_not_commit {s : State} {env : Env} {req : Request}
    (h : req.commit? s env = none) : step s (.request env req) = s := by
  have hc : (Event.request env req).commit? s = none := h
  unfold step
  rw [hc]
  change { s with stream := s.stream ++ [] } = s
  rw [List.append_nil]

/-- A row of a table one row longer. -/
theorem getElem?_append_one {α : Type*} {l : List α} {a b : α} {i : ℕ}
    (h : (l ++ [a])[i]? = some b) : l[i]? = some b ∨ (i = l.length ∧ b = a) := by
  rw [List.getElem?_append] at h
  split at h
  · exact .inl h
  · rename_i hge
    obtain ⟨hone, rfl⟩ := List.getElem?_eq_some_iff.mp h
    rw [List.length_singleton] at hone
    exact .inr ⟨by omega, by simp⟩

/-- A row of a table one row of which was written. -/
theorem getElem?_set_one {α : Type*} {l : List α} {a b : α} {i j : ℕ}
    (h : (l.set j a)[i]? = some b) : l[i]? = some b ∨ (i = j ∧ b = a) := by
  rw [List.getElem?_set] at h
  split at h
  · rename_i hij
    split at h
    · exact .inr ⟨hij.symm, (Option.some.inj h).symm⟩
    · exact absurd h (by simp)
  · exact .inl h

/-- The rows of one run before and after an event. -/
theorem Captures.rows_step {s : State} (h : Captures s) (e : Event) {id : RunId} {r' : RunRows}
    (hr' : (step s e).db.runs[id]? = some r') :
    (∃ env, id = s.db.runs.length ∧ Creates (s.db.context env id) r') ∨
      s.db.runs[id]? = some r' ∨
      ∃ env r, s.db.runs[id]? = some r ∧ RowStep (s.db.context env id) r r' e.writer ∧
        e.env? = some env := by
  rcases db_step s e with ⟨db, hc, hdb⟩ | hdb
  · rw [hdb] at hr'
    cases h.dbStep_of_commit hc with
    | @created env r hcreates hruns =>
      rw [hruns] at hr'
      rcases getElem?_append_one hr' with hold | ⟨rfl, rfl⟩
      · exact .inr (.inl hold)
      · exact .inl ⟨env, rfl, hcreates⟩
    | @wrote env j r r₁ hr hrow hruns henv =>
      rw [hruns] at hr'
      rcases getElem?_set_one hr' with hold | ⟨rfl, rfl⟩
      · exact .inr (.inl hold)
      · exact .inr (.inr ⟨env, r, hr, hrow, henv⟩)
  · rw [hdb] at hr'
    exact .inr (.inl hr')

theorem rows_step {s : State} (h : Sound s) (e : Event) {id : RunId} {r' : RunRows}
    (hr' : (step s e).db.runs[id]? = some r') :
    (∃ env, id = s.db.runs.length ∧ Creates (s.db.context env id) r') ∨
      s.db.runs[id]? = some r' ∨
      ∃ env r, s.db.runs[id]? = some r ∧ RowStep (s.db.context env id) r r' e.writer ∧
        e.env? = some env :=
  h.captures.rows_step e hr'

theorem dbLater_step {s : State} (h : Sound s) (e : Event) : DbLater s.db (step s e).db := by
  rcases db_step s e with ⟨db, hc, hdb⟩ | hdb
  · rw [hdb]
    exact h.dbLater_of_dbStep (h.dbStep_of_commit hc)
  · rw [hdb]
    exact DbLater.refl _

/-- The rows of an existing run after an event. -/
theorem Captures.rows_step_of_some {s : State} (h : Captures s) (e : Event) {id : RunId}
    {r : RunRows} (hr : s.db.runs[id]? = some r) :
    ∃ r', (step s e).db.runs[id]? = some r' ∧
      (r' = r ∨ ∃ env, RowStep (s.db.context env id) r r' e.writer) := by
  rcases db_step s e with ⟨db, hc, hdb⟩ | hdb
  · rw [hdb]
    have hlt := (List.getElem?_eq_some_iff.mp hr).1
    cases h.dbStep_of_commit hc with
    | created _ hruns =>
      rw [hruns]
      exact ⟨r, (List.getElem?_append_left hlt).trans hr, .inl rfl⟩
    | @wrote env j x x' hx hrow hruns =>
      rw [hruns]
      by_cases hj : j = id
      · subst hj
        obtain rfl := Option.some.inj (hx.symm.trans hr)
        exact ⟨x', List.getElem?_set_self hlt, .inr ⟨env, hrow⟩⟩
      · exact ⟨r, (List.getElem?_set_ne hj).trans hr, .inl rfl⟩
  · rw [hdb]
    exact ⟨r, hr, .inl rfl⟩

theorem rows_step_of_some {s : State} (h : Sound s) (e : Event) {id : RunId} {r : RunRows}
    (hr : s.db.runs[id]? = some r) :
    ∃ r', (step s e).db.runs[id]? = some r' ∧
      (r' = r ∨ ∃ env, RowStep (s.db.context env id) r r' e.writer) :=
  h.captures.rows_step_of_some e hr

theorem Sound.rows {s : State} (h : Sound s) {id : RunId} {r : RunRows}
    (hr : s.db.runs[id]? = some r) : r.core.StatusInv ∧ r.core.BudgetFrozen :=
  h.inv s.db Sound.db_mem r (List.mem_of_getElem? hr)

/-- **The invariant rule for one run**, over the runs of the machine that
only the writers `W` take part in. -/
theorem rows_invariant_of_writers {W : Writer → Prop} {P : RunId → RunRows → Prop}
    (hcreate : ∀ {db : Database} {env : Env} {r : RunRows},
      Creates (db.context env db.runs.length) r → P db.runs.length r)
    (hstep : ∀ {db : Database} {env : Env} {id : RunId} {r r' : RunRows} {w : Writer},
      db.runs[id]? = some r → r.core.StatusInv → r.core.BudgetFrozen → P id r → W w →
      RowStep (db.context env id) r r' w → P id r')
    {es : List Event} (hes : ∀ e ∈ es, W e.writer) {id : RunId} {r : RunRows}
    (hr : (machine.run es).db.runs[id]? = some r) : P id r := by
  have hall : Sound (machine.run es) ∧
      ∀ id r, (machine.run es).db.runs[id]? = some r → P id r := by
    clear hr
    induction es using List.reverseRecOn with
    | nil => exact ⟨Sound.init, fun id r hr => absurd hr (by simp [machine, Machine.run])⟩
    | append_singleton es e ih =>
      obtain ⟨hs, hP⟩ := ih (fun x hx => hes x (List.mem_append_left _ hx))
      rw [machine.run_concat]
      refine ⟨hs.step e, fun id r' hr' => ?_⟩
      rcases rows_step hs e hr' with ⟨env, rfl, hcreates⟩ | hsame | ⟨env, r, hr, hrow, -⟩
      · exact hcreate hcreates
      · exact hP id r' hsame
      · obtain ⟨hinv, hfrozen⟩ := hs.rows hr
        exact hstep hr hinv hfrozen (hP id r hr) (hes e (by simp)) hrow
  exact hall.2 id r hr

/-- The invariant rule, whoever takes part. -/
theorem rows_invariant {P : RunId → RunRows → Prop}
    (hcreate : ∀ {db : Database} {env : Env} {r : RunRows},
      Creates (db.context env db.runs.length) r → P db.runs.length r)
    (hstep : ∀ {db : Database} {env : Env} {id : RunId} {r r' : RunRows} {w : Writer},
      db.runs[id]? = some r → r.core.StatusInv → r.core.BudgetFrozen → P id r →
      RowStep (db.context env id) r r' w → P id r')
    (es : List Event) {id : RunId} {r : RunRows} (hr : (machine.run es).db.runs[id]? = some r) :
    P id r :=
  rows_invariant_of_writers (W := fun _ => True) hcreate
    (fun hr hinv hfrozen hP _ hrow => hstep hr hinv hfrozen hP hrow) (fun _ _ => trivial) hr

/-- The invariant rule, for an invariant of the abstract run. -/
theorem core_invariant {P : RunCore → Prop}
    (hcreate : ∀ {c : RunCore}, c.Created → c.BudgetFrozen → P c)
    (hstep : ∀ {c d : RunCore}, c.StatusInv → P c → RunCore.Step c d → P d)
    (es : List Event) {id : RunId} {r : RunRows} (hr : (machine.run es).db.runs[id]? = some r) :
    P r.core :=
  rows_invariant (P := fun _ r => P r.core)
    (fun hc => hcreate hc.created.1 hc.created.2)
    (fun hr hinv hfrozen hP hrow => hstep hinv hP (hrow.core hr hinv hfrozen)) es hr

/-- The versions after an event of the control plane. -/
theorem versions_step (s : State) (e : Event) :
    ∀ v ∈ (step s e).versions, v ∈ s.versions ∨ v = (step s e).db := by
  unfold step
  split
  · rename_i db _
    intro v hv
    have hv : v ∈ s.versions ++ [db] := hv
    rw [List.mem_append, List.mem_singleton] at hv
    exact hv
  · exact fun v hv => .inl hv

/-- **Every version was the database once.** -/
theorem exists_run_of_version {es : List Event} {v : Database} (hv : v ∈ (machine.run es).versions) :
    ∃ fs, (machine.run fs).db = v := by
  induction es using List.reverseRecOn with
  | nil =>
    have hv : v ∈ [({} : Database)] := hv
    exact ⟨[], (List.mem_singleton.mp hv).symm⟩
  | append_singleton es e ih =>
    rw [machine.run_concat] at hv
    rcases versions_step _ _ v hv with hold | rfl
    · exact ih hold
    · exact ⟨es ++ [e], congrArg State.db (machine.run_concat es e)⟩

/-- **The rule for two moments of one run.** A relation that every step of
the writers `W` respects relates the rows of a run to what they are after
any events of these writers. -/
theorem rows_relation {W : Writer → Prop} {P : RunRows → Prop} {R : RunRows → RunRows → Prop}
    (hrefl : ∀ r, R r r) (htrans : ∀ {a b c}, R a b → R b c → R a c)
    (hP : ∀ {r r'}, P r → R r r' → P r')
    (hstep : ∀ {db : Database} {env : Env} {id : RunId} {r r' : RunRows} {w : Writer},
      db.runs[id]? = some r → r.core.StatusInv → r.core.BudgetFrozen → P r → W w →
      RowStep (db.context env id) r r' w → R r r')
    {s : State} (hs : Sound s) {id : RunId} {r : RunRows} (hr : s.db.runs[id]? = some r) (hPr : P r)
    (es : List Event) (hes : ∀ e ∈ es, W e.writer) :
    ∃ r', (machine.runFrom s es).db.runs[id]? = some r' ∧ R r r' := by
  induction es generalizing s r with
  | nil => exact ⟨r, hr, hrefl r⟩
  | cons e es ih =>
    obtain ⟨r₁, hr₁, hone⟩ := rows_step_of_some hs e hr
    have hR : R r r₁ := by
      rcases hone with rfl | ⟨env, hrow⟩
      · exact hrefl _
      · obtain ⟨hinv, hfrozen⟩ := hs.rows hr
        exact hstep hr hinv hfrozen hPr (hes e List.mem_cons_self) hrow
    obtain ⟨r₂, hr₂, hR₂⟩ := ih (hs.step e) hr₁ (hP hPr hR)
      fun e he => hes e (List.mem_cons_of_mem _ he)
    exact ⟨r₂, hr₂, htrans hR hR₂⟩

/-- A run is still there after any events, and later. -/
theorem Sound.rows_after {s : State} (h : Sound s) {id : RunId} {r : RunRows}
    (hr : s.db.runs[id]? = some r) (es : List Event) :
    ∃ r', (machine.runFrom s es).db.runs[id]? = some r' ∧ r.core.Later r'.core :=
  rows_relation (W := fun _ => True) (P := fun _ => True) (R := fun r r' => r.core.Later r'.core)
    (fun r => .refl r.core) (fun h₁ h₂ => h₁.trans h₂) (fun _ _ => trivial)
    (fun hr hinv hfrozen _ _ hrow => .of_step (hrow.core hr hinv hfrozen)) h hr trivial es
    fun _ _ => trivial

end ControlPlane

end AgentReliability
