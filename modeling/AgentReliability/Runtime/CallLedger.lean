import AgentReliability.Runtime.BudgetCall
/-!
# What the ledger has of a call

The server answers the executions of `budget_call` one request at a time,
and a run's ledger keeps an entry for each reservation it has committed. So
an execution whose reservation was committed has an entry of its own, and
the use that is known of it is what the execution has settled it with.
-/

namespace AgentReliability

namespace Runtime

open ControlPlane

/-! ## What the server does with the ledger -/

/-- The ledger of the run has the entry. -/
def HasCall (s : State) (runId : RunId) (call : BudgetCall) : Prop :=
  ∃ r, s.db.runs[runId]? = some r ∧ call ∈ r.budgetCalls

section

variable {s s' : State} {env : Env} {runId j : RunId} {id : CallId} {call : BudgetCall}

/-- The rows of one run are written. -/
theorem HasCall.of_set {r' : RunRows} (hdb : s'.db.runs = s.db.runs.set runId r')
    (h : HasCall s j call) (hkept : j = runId → call ∈ r'.budgetCalls) : HasCall s' j call := by
  obtain ⟨r, hr, hcall⟩ := h
  by_cases hj : j = runId
  · subst hj
    refine ⟨r', ?_, hkept rfl⟩
    rw [hdb, List.getElem?_set_self (List.getElem?_eq_some_iff.mp hr).1]
  · refine ⟨r, ?_, hcall⟩
    rw [hdb, List.getElem?_set_ne (Ne.symm hj)]
    exact hr

theorem HasCall.mem_callIds (h : HasCall s j call) : call.id ∈ s.db.callIds := by
  obtain ⟨r, hr, hcall⟩ := h
  exact List.mem_flatMap.mpr ⟨r, List.mem_of_getElem? hr, List.mem_map_of_mem hcall⟩

/-- A request whose transaction keeps the entries of its run. -/
theorem HasCall.request {req : Request} (h : HasCall s j call)
    (hkeeps : ∀ tx r r', req.prepare s env = .ok (some tx) → s.db.runs[tx.runId]? = some r →
      tx.body (s.db.context env tx.runId) r = .ok r' → call ∈ r.budgetCalls →
        j = tx.runId → call ∈ r'.budgetCalls) :
    HasCall (step s (.request env req)) j call := by
  rcases db_of_request s env req with ⟨db, hc, hdb⟩ | hsame
  · obtain ⟨tx, r, r', hprep, hr, hbody, rfl⟩ := Request.commit_eq_some hc
    refine h.of_set (by rw [hdb]) fun hj => ?_
    obtain ⟨x, hx, hcall⟩ := h
    rw [hj, hr] at hx
    obtain rfl := Option.some.inj hx
    exact hkeeps tx r r' hprep hr hbody hcall hj
  · rw [hsame]
    exact h

/-- **An event that is no request to the ledger keeps every entry.** -/
theorem HasCall.step (hs : Sound s) (h : HasCall s j call) {e : Event}
    (he : Event.spends e = false) : HasCall (step s e) j call := by
  -- All but the bookkeeping of the outbox is told apart by its writer.
  have hkept : (e.writer = .lifecycle ∨ ∃ no, e.writer = .claimant no) ∨ e.writer = .publisher ∨
      (∃ key, e.writer = .runtime key) → HasCall (ControlPlane.step s e) j call := by
    intro hwriter
    obtain ⟨r, hr, hcall⟩ := h
    obtain ⟨r', hr', hstep⟩ := rows_step_of_some hs e hr
    refine ⟨r', hr', ?_⟩
    rcases hstep with rfl | ⟨env, hrow⟩
    · exact hcall
    · rcases hwriter with hwriter | hwriter | ⟨key, hwriter⟩
      · rw [(grows_of_lifecycle hwriter hrow).calls]
        exact hcall
      · rw [hwriter] at hrow
        cases hrow with
        | markPublished hmark =>
          have hcore : r'.budgetCalls = r.budgetCalls :=
            congrArg RunCore.calls (markPublished_core hmark)
          rw [hcore]
          exact hcall
      · rw [hwriter] at hrow
        cases hrow with
        | ingest hingest =>
          rw [(ingest_grows (S := fun _ => True) hingest).calls]
          exact hcall
  have hupdate : ∀ {k : ℕ} {f : OutboxMessage → OutboxMessage} {r r' : RunRows},
      updateMessage k f r = .ok r' → r'.budgetCalls = r.budgetCalls := by
    intro k f r r' hupdate
    simp only [updateMessage, bind_eq_ok, pure_eq_ok] at hupdate
    obtain ⟨-, -, rfl⟩ := hupdate
    rfl
  cases e with
  | createTask => exact hkept (.inl (.inl rfl))
  | confirm => exact hkept (.inl (.inl rfl))
  | environment => exact hkept (.inl (.inl rfl))
  | publish => exact hkept (.inl (.inl rfl))
  | request env req =>
    cases req with
    | reserve => exact absurd he (by simp [Event.spends])
    | settle => exact absurd he (by simp [Event.spends])
    | claim => exact hkept (.inl (.inr ⟨_, rfl⟩))
    | markPublished => exact hkept (.inr (.inl rfl))
    | ingest => exact hkept (.inr (.inr ⟨_, rfl⟩))
    | countFailure runId message =>
      refine h.request fun tx r r' hprep _ hbody hcall _ => ?_
      cases Request.goesTo hprep with
      | countFailure =>
        have hcount : countFailure message r = .ok r' := hbody
        unfold countFailure at hcount
        rw [hupdate hcount]
        exact hcall
    | republish runId message runAt messageAt =>
      refine h.request fun tx r r' hprep _ hbody hcall _ => ?_
      cases Request.goesTo hprep with
      | republish =>
        have hrepublish : republish message r = .ok r' := hbody
        unfold republish at hrepublish
        rw [hupdate hrepublish]
        exact hcall
    | _ => exact hkept (.inl (.inl rfl))

/-- **A reservation that commits enters one call, under a new id**, and
keeps the others. -/
theorem HasCall.reserve {attemptId : AttemptId} {token : Option LeaseToken} {reserved : ℕ}
    (hc : ((Request.reserve runId attemptId token id reserved).commit? s env).isSome) :
    id ∉ s.db.callIds ∧
      HasCall (ControlPlane.step s (.request env (.reserve runId attemptId token id reserved))) runId
        { id := id, reserved := reserved } ∧
      ∀ j call, HasCall s j call →
        HasCall (ControlPlane.step s (.request env (.reserve runId attemptId token id reserved))) j
          call := by
  obtain ⟨db, hdb⟩ := Option.isSome_iff_exists.mp hc
  have hstep : (ControlPlane.step s
      (.request env (.reserve runId attemptId token id reserved))).db = db := by
    unfold ControlPlane.step
    simp only [Event.commit?, hdb]
    rfl
  obtain ⟨tx, r, r', hprep, hr, hbody, rfl⟩ := Request.commit_eq_some hdb
  simp only [Request.prepare, pure_eq_ok, Option.some.injEq] at hprep
  subst hprep
  obtain ⟨-, -, hfree, hcalls⟩ := reserve_keeps (K := fun _ => True) hbody
  refine ⟨not_mem_callIds hfree, ⟨r', ?_, ?_⟩, fun j call h => ?_⟩
  · rw [hstep]
    exact List.getElem?_set_self (List.getElem?_eq_some_iff.mp hr).1
  · rw [hcalls]
    exact List.mem_append_right _ (List.mem_singleton_self _)
  · refine h.of_set (by rw [hstep]) fun hj => ?_
    obtain ⟨x, hx, hcall⟩ := h
    rw [hj] at hx
    obtain rfl := Option.some.inj (hr.symm.trans hx)
    rw [hcalls]
    exact List.mem_append_left _ hcall

/-- **A settlement that commits writes the use of one call**, and keeps the
others. -/
theorem HasCall.settle {used : Option ℕ} (hreach : machine.Reachable s)
    (hc : ((Request.settle runId id used).commit? s env).isSome) :
    (∀ j call, HasCall s j call → j ≠ runId ∨ call.id ≠ id →
      HasCall (ControlPlane.step s (.request env (.settle runId id used))) j call) ∧
    ∀ call, HasCall s runId call → call.id = id →
      ∃ call', HasCall (ControlPlane.step s (.request env (.settle runId id used))) runId call' ∧
        call'.id = id ∧ call'.reserved = call.reserved ∧ call'.used = used ∧
        (used.isSome → call'.status = .settled) := by
  obtain ⟨db, hdb⟩ := Option.isSome_iff_exists.mp hc
  have hstep : (ControlPlane.step s (.request env (.settle runId id used))).db = db := by
    unfold ControlPlane.step
    simp only [Event.commit?, hdb]
    rfl
  obtain ⟨r, r', hr, hbody, rfl⟩ := settle_commit hdb
  have hafter : (ControlPlane.step s (.request env (.settle runId id used))).db.runs[runId]? =
      some r' := by
    rw [hstep]
    exact List.getElem?_set_self (List.getElem?_eq_some_iff.mp hr).1
  have hinv : r.core.CallsInv := by
    obtain ⟨es, rfl⟩ := hreach
    exact callsInv_of_run es hr
  -- What the transaction writes: nothing, for a call that was settled as it says, or one entry.
  have hwrite : (r' = r ∧ ∃ found ∈ r.budgetCalls, found.id = id ∧ found.status = .settled ∧
      found.used = used) ∨ r'.budgetCalls = settleCall id used r.budgetCalls := by
    unfold ControlPlane.settle at hbody
    split at hbody
    · exact absurd hbody throw_ne_ok
    · rename_i found hfind
      split at hbody
      · rename_i hsettled
        simp only [bind_eq_ok, require_eq_ok, pure_eq_ok] at hbody
        obtain ⟨-, hused, rfl⟩ := hbody
        exact .inl ⟨rfl, found, List.mem_of_find?_eq_some hfind,
          by simpa using List.find?_some hfind, hsettled, hused⟩
      · rw [pure_eq_ok] at hbody
        subst hbody
        exact .inr rfl
  constructor
  · intro j call h hother
    refine h.of_set (by rw [hstep]) fun hj => ?_
    obtain ⟨x, hx, hcall⟩ := h
    rw [hj] at hx
    obtain rfl := Option.some.inj (hr.symm.trans hx)
    rcases hwrite with ⟨rfl, -⟩ | hcalls
    · exact hcall
    · rw [hcalls]
      have hne : call.id ≠ id := hother.resolve_left fun hne => hne hj
      exact List.mem_map.mpr ⟨call, hcall, if_neg hne⟩
  · rintro call ⟨x, hx, hcall⟩ hid
    obtain rfl := Option.some.inj (hr.symm.trans hx)
    rcases hwrite with ⟨rfl, found, hfound, hfid, hsettled, hused⟩ | hcalls
    · obtain rfl := hinv.eq_of_id hfound hcall (hfid.trans hid.symm)
      exact ⟨found, ⟨_, hafter, hfound⟩, hid, rfl, hused, fun _ => hsettled⟩
    · refine ⟨call.settleWith used, ⟨_, hafter, ?_⟩, hid, rfl, rfl, fun hsome => ?_⟩
      · rw [hcalls]
        exact List.mem_map.mpr ⟨call, hcall, if_pos hid⟩
      · obtain ⟨v, rfl⟩ := Option.isSome_iff_exists.mp hsome
        rfl

end

/-! ## The invariant of the executions -/

/-- The reservation of the execution was committed. -/
def Execution.IsGranted (x : Execution) : Prop := granted x.budget.amount ∈ x.messages

/-- **The entry of an execution in the ledger.** Its use, if it is known, is
what the execution settled it with. -/
def Backed (s : State) (x : Execution) : Prop :=
  ∃ call, HasCall s x.budget.runId call ∧ call.id = x.requestId ∧
    call.reserved = x.budget.amount ∧
    (∀ v ∈ call.used, ∃ committed,
      { request := CallEffect.settle (some v), committed := committed } ∈ x.messages) ∧
    ∀ v, { request := CallEffect.settle (some v), committed := some true } ∈ x.messages →
      call.status = .settled ∧ call.used = some v

structure RuntimeInv (s : RuntimeState) : Prop where
  reachable : machine.Reachable s.plane
  staged : ∀ x ∈ s.executions, x.Staged
  backed : ∀ x ∈ s.executions, x.IsGranted → Backed s.plane x
  distinct : ∀ (i j : ℕ) (x y : Execution), s.executions[i]? = some x →
    s.executions[j]? = some y → x.IsGranted → y.IsGranted → x.requestId = y.requestId → i = j

/-- What an execution has sent, by its stage. -/
theorem Execution.Staged.messages_eq {x : Execution} (h : x.Staged) :
    x.messages = [] ∨
      (∃ committed, x.messages = [{ request := .reserve x.budget.amount, committed := committed }]) ∨
      ∃ used committed, x.messages = [granted x.budget.amount,
        { request := .settle used, committed := committed }] ∧ ∀ v ∈ used, x.reported = some v := by
  obtain ⟨budget, requestId, program, waiting, messages, truth, reported⟩ := x
  change Stage budget.amount budget.limit program waiting messages truth reported at h
  cases h with
  | toReserve => exact .inl rfl
  | reserving committed => exact .inr (.inl ⟨committed, rfl⟩)
  | refused e h => exact h.imp_right .inl
  | toInvoke => exact .inr (.inl ⟨_, rfl⟩)
  | toSettle => exact .inr (.inl ⟨_, rfl⟩)
  | settling t committed hsettles =>
    refine .inr (.inr ⟨_, committed, rfl, ?_⟩)
    cases hsettles with
    | unknown => exact fun v hv => absurd hv (by simp)
    | known => exact fun v hv => hv
  | returned => exact .inr (.inr ⟨_, _, rfl, fun v hv => hv⟩)
  | raised t he h =>
    rcases h with hfirst | ⟨used, committed, hboth, hused⟩
    · exact .inr (.inl ⟨_, hfirst⟩)
    · exact .inr (.inr ⟨used, committed, hboth, hused⟩)

/-- A local step of an execution: whatever it does, it sends at most new
requests, which the server has not taken. -/
structure Execution.GoesOn (x y : Execution) : Prop where
  budget : y.budget = x.budget
  requestId : y.requestId = x.requestId
  messages : ∃ sent : List CallMessage, y.messages = x.messages ++ sent ∧
    ∀ m ∈ sent, m.committed = none

namespace Execution.GoesOn

variable {x y : Execution}

theorem of_messages (hbudget : y.budget = x.budget) (hid : y.requestId = x.requestId)
    (hmessages : y.messages = x.messages) : x.GoesOn y :=
  ⟨hbudget, hid, [], by rw [hmessages, List.append_nil], fun m hm => absurd hm (by simp)⟩

theorem resume (x : Execution) (answer : Except PyException Unit) : x.GoesOn (x.resume answer) := by
  unfold Execution.resume
  split <;> exact of_messages rfl rfl rfl

theorem send (x : Execution) : x.GoesOn x.send := by
  unfold Execution.send
  split
  · exact of_messages rfl rfl rfl
  · split
    · exact of_messages rfl rfl rfl
    · refine ⟨rfl, rfl, [_], rfl, fun m hm => ?_⟩
      rw [List.mem_singleton.mp hm]

theorem deliver (x : Execution) : x.GoesOn x.deliver := by
  unfold Execution.deliver
  split
  · exact resume x _
  · exact resume x _
  · exact of_messages rfl rfl rfl

theorem invoke (x : Execution) (truth : ℕ) : x.GoesOn (x.invoke truth) := by
  unfold Execution.invoke
  split <;> exact of_messages rfl rfl rfl

theorem answer (x : Execution) (outcome : Except PyException ModelResponse) :
    x.GoesOn (x.answer outcome) := by
  unfold Execution.answer
  split <;> exact of_messages rfl rfl rfl

/-- What the server has taken was there before. -/
theorem taken (h : x.GoesOn y) {m : CallMessage} (hm : m ∈ y.messages)
    (htaken : m.committed = some true) : m ∈ x.messages := by
  obtain ⟨sent, hmessages, hnew⟩ := h.messages
  rw [hmessages] at hm
  rcases List.mem_append.mp hm with hm | hm
  · exact hm
  · rw [hnew m hm] at htaken
    exact absurd htaken (by simp)

theorem isGranted (h : x.GoesOn y) (hy : y.IsGranted) : x.IsGranted := by
  unfold Execution.IsGranted at hy ⊢
  rw [h.budget] at hy
  exact h.taken hy rfl

theorem backed (h : x.GoesOn y) {s : State} (hx : Backed s x) : Backed s y := by
  obtain ⟨call, hcall, hid, hreserved, hused, hsettled⟩ := hx
  refine ⟨call, h.budget.symm ▸ hcall, hid.trans h.requestId.symm, ?_, fun v hv => ?_,
    fun v hv => hsettled v (h.taken hv rfl)⟩
  · rw [hreserved, h.budget]
  · obtain ⟨committed, hm⟩ := hused v hv
    obtain ⟨sent, hmessages, -⟩ := h.messages
    exact ⟨committed, by rw [hmessages]; exact List.mem_append_left _ hm⟩

end Execution.GoesOn

namespace RuntimeInv

variable {s : RuntimeState}

theorem init : RuntimeInv runtimeMachine.init where
  reachable := machine.reachable_run []
  staged := fun x hx => absurd hx (by simp [runtimeMachine])
  backed := fun x hx => absurd hx (by simp [runtimeMachine])
  distinct := fun i j x y hx => absurd hx (by simp [runtimeMachine])

/-- The control plane goes on without the ledger. -/
theorem plane (h : RuntimeInv s) {e : Event} (he : Event.spends e = false) :
    RuntimeInv { s with plane := step s.plane e } := by
  refine ⟨h.reachable.step e, h.staged, fun x hx hgranted => ?_, h.distinct⟩
  · obtain ⟨call, hcall, hrest⟩ := h.backed x hx hgranted
    exact ⟨call, hcall.step (sound_of_reachable h.reachable) he, hrest⟩

theorem start (h : RuntimeInv s) (budget : BudgetContext) (requestId : CallId) :
    RuntimeInv (runtimeStep s (.start budget requestId)) := by
  have hnew : ¬ Execution.IsGranted
      { budget, requestId, program := budgetCall budget.inputLimit budget.outputLimit } :=
    List.not_mem_nil
  -- The new execution is the last, and has no reservation.
  have hold : ∀ {i : ℕ} {x : Execution}, (runtimeStep s (.start budget requestId)).executions[i]? =
      some x → x.IsGranted → s.executions[i]? = some x := by
    intro i x hx hgranted
    change (s.executions ++ [_])[i]? = some x at hx
    rw [List.getElem?_append] at hx
    split at hx
    · exact hx
    · have hmem := List.mem_of_getElem? hx
      rw [List.mem_singleton.mp hmem] at hgranted
      exact absurd hgranted hnew
  refine ⟨h.reachable, fun x hx => ?_, fun x hx hgranted => ?_, fun i j x y hx hy hgx hgy =>
    h.distinct i j x y (hold hx hgx) (hold hy hgy) hgx hgy⟩
  · rcases List.mem_append.mp hx with hx | hx
    · exact h.staged x hx
    · rw [List.mem_singleton.mp hx]
      exact Execution.staged_start budget requestId
  · obtain ⟨i, hi⟩ := List.getElem?_of_mem hx
    exact h.backed x (List.mem_of_getElem? (hold hi hgranted)) hgranted

/-- One execution goes on. -/
theorem modify (h : RuntimeInv s) (i : ℕ) {f : Execution → Execution}
    (hstaged : ∀ x : Execution, x.Staged → (f x).Staged)
    (hgoesOn : ∀ x : Execution, x.GoesOn (f x)) :
    RuntimeInv { s with executions := s.executions.modify i f } := by
  have hbefore : ∀ {k : ℕ} {y : Execution}, (s.executions.modify i f)[k]? = some y →
      ∃ x, s.executions[k]? = some x ∧ (y = f x ∨ y = x) := by
    intro k y hy
    rw [List.getElem?_modify] at hy
    obtain ⟨x, hx, rfl⟩ := Option.map_eq_some_iff.mp hy
    refine ⟨x, hx, ?_⟩
    split
    · exact .inl rfl
    · exact .inr rfl
  have hsame : ∀ {x y : Execution}, y = f x ∨ y = x → x.GoesOn y := by
    rintro x y (rfl | rfl)
    · exact hgoesOn x
    · exact .of_messages rfl rfl rfl
  refine ⟨h.reachable, fun y hy => ?_, fun y hy hgranted => ?_, fun j k y z hy hz hgy hgz hid => ?_⟩
  · obtain ⟨k, hk⟩ := List.getElem?_of_mem hy
    obtain ⟨x, hx, rfl | rfl⟩ := hbefore hk
    · exact hstaged x (h.staged x (List.mem_of_getElem? hx))
    · exact h.staged y (List.mem_of_getElem? hx)
  · obtain ⟨k, hk⟩ := List.getElem?_of_mem hy
    obtain ⟨x, hx, hxy⟩ := hbefore hk
    exact (hsame hxy).backed (h.backed x (List.mem_of_getElem? hx) ((hsame hxy).isGranted hgranted))
  · obtain ⟨x, hx, hxy⟩ := hbefore hy
    obtain ⟨w, hw, hwz⟩ := hbefore hz
    refine h.distinct j k x w hx hw ((hsame hxy).isGranted hgy) ((hsame hwz).isGranted hgz) ?_
    rw [← (hsame hxy).requestId, ← (hsame hwz).requestId]
    exact hid

/-- The server takes a request of one execution, whose messages change. -/
theorem of_serve (h : RuntimeInv s) {i : ℕ} {x y : Execution} (hx : s.executions[i]? = some x)
    {plane : State} (hreach : machine.Reachable plane) (hstaged : y.Staged)
    (hid : y.requestId = x.requestId)
    (hbacked : y.IsGranted → Backed plane y)
    (hothers : ∀ j z, s.executions[j]? = some z → j ≠ i → z.IsGranted → Backed plane z ∧
      (y.IsGranted → z.requestId ≠ x.requestId)) :
    RuntimeInv { plane, executions := s.executions.set i y } := by
  have hlt := (List.getElem?_eq_some_iff.mp hx).1
  have hat : ∀ {j : ℕ} {z : Execution}, (s.executions.set i y)[j]? = some z →
      (j = i ∧ z = y) ∨ (j ≠ i ∧ s.executions[j]? = some z) := by
    intro j z hz
    by_cases hj : j = i
    · subst hj
      rw [List.getElem?_set_self hlt] at hz
      exact .inl ⟨rfl, (Option.some.inj hz).symm⟩
    · rw [List.getElem?_set_ne (Ne.symm hj)] at hz
      exact .inr ⟨hj, hz⟩
  refine ⟨hreach, fun z hz => ?_, fun z hz hgranted => ?_, fun j k z w hz hw hgz hgw hzw => ?_⟩
  · obtain ⟨j, hj⟩ := List.getElem?_of_mem hz
    rcases hat hj with ⟨-, rfl⟩ | ⟨-, hj⟩
    · exact hstaged
    · exact h.staged z (List.mem_of_getElem? hj)
  · obtain ⟨j, hj⟩ := List.getElem?_of_mem hz
    rcases hat hj with ⟨-, rfl⟩ | ⟨hne, hj⟩
    · exact hbacked hgranted
    · exact (hothers j z hj hne hgranted).1
  · rcases hat hz with ⟨hj, hzy⟩ | ⟨hj, hzold⟩ <;> rcases hat hw with ⟨hk, hwy⟩ | ⟨hk, hwold⟩
    · rw [hj, hk]
    · rw [hzy, hid] at hzw
      exact absurd hzw.symm ((hothers k w hwold hk hgw).2 (hzy ▸ hgz))
    · rw [hwy, hid] at hzw
      exact absurd hzw ((hothers j z hzold hj hgz).2 (hwy ▸ hgw))
    · exact h.distinct j k z w hzold hwold hgz hgw hzw

/-- The settlement among the messages of an execution. -/
theorem mem_settle {amount : ℕ} {used used' : Option ℕ} {committed committed' : Option Bool}
    (h : { request := CallEffect.settle used, committed := committed } ∈
      [granted amount, { request := .settle used', committed := committed' }]) :
    used = used' ∧ committed = committed' := by
  rcases List.mem_cons.mp h with h | h
  · simp [granted] at h
  · simpa using h

/-- The reservation of an execution commits: its id is new, so that no other
execution has it. -/
theorem serve_reserve (h : RuntimeInv s) {i : ℕ} {env : Env} {x : Execution}
    (hx : s.executions[i]? = some x) {req : Request}
    (hreq : x.request (.reserve x.budget.amount) = some req)
    (hcommits : (req.commit? s.plane env).isSome)
    (hstaged : Execution.Staged { x with messages := [granted x.budget.amount] }) :
    RuntimeInv (RuntimeState.mk (step s.plane (.request env req))
      (s.executions.set i { x with messages := [granted x.budget.amount] })) := by
  obtain rfl := Option.some.inj hreq
  obtain ⟨hfresh, hnew, hold⟩ := HasCall.reserve hcommits
  refine h.of_serve hx (h.reachable.step _) hstaged rfl (fun _ => ?_) fun j z hz _ hgranted => ?_
  · exact ⟨_, hnew, rfl, rfl, fun v hv => absurd hv (by simp), fun v hv => absurd hv (by simp [granted])⟩
  · obtain ⟨call, hcall, hid, hrest⟩ := h.backed z (List.mem_of_getElem? hz) hgranted
    refine ⟨⟨call, hold _ _ hcall, hid, hrest⟩, fun _ hsame => hfresh ?_⟩
    rw [← hsame, ← hid]
    exact hcall.mem_callIds

/-- A settlement of an execution commits: it writes the entry of its own
reservation. -/
theorem serve_settle (h : RuntimeInv s) {i : ℕ} {env : Env} {x : Execution}
    (hx : s.executions[i]? = some x) {used : Option ℕ}
    (hmessages : x.messages =
      [granted x.budget.amount, { request := .settle used, committed := none }])
    {req : Request} (hreq : x.request (.settle used) = some req)
    (hcommits : (req.commit? s.plane env).isSome) (hstaged : Execution.Staged { x with messages :=
      [granted x.budget.amount, { request := .settle used, committed := some true }] }) :
    RuntimeInv (RuntimeState.mk (step s.plane (.request env req))
      (s.executions.set i { x with messages :=
        [granted x.budget.amount, { request := .settle used, committed := some true }] })) := by
  obtain rfl := Option.some.inj hreq
  obtain ⟨hothers, hown⟩ := HasCall.settle h.reachable hcommits
  have hgx : x.IsGranted := by
    unfold Execution.IsGranted
    rw [hmessages]
    exact List.mem_cons_self
  refine h.of_serve hx (h.reachable.step _) hstaged rfl (fun _ => ?_) fun j z hz hne hgranted => ?_
  · obtain ⟨call, hcall, hid, hreserved, -⟩ := h.backed x (List.mem_of_getElem? hx) hgx
    obtain ⟨call', hcall', hid', hreserved', hused', hsettled'⟩ := hown call hcall hid
    refine ⟨call', hcall', hid', hreserved'.trans hreserved, fun v hv => ?_, fun v hv => ?_⟩
    · rw [hused'] at hv
      obtain rfl := Option.mem_def.mp hv
      exact ⟨some true, List.mem_cons_of_mem _ (List.mem_singleton_self _)⟩
    · obtain ⟨rfl, -⟩ := mem_settle hv
      exact ⟨hsettled' rfl, hused'⟩
  · obtain ⟨call, hcall, hid, hrest⟩ := h.backed z (List.mem_of_getElem? hz) hgranted
    have hids : z.requestId ≠ x.requestId := fun hsame => hne (h.distinct j i z x hz hx hgranted hgx hsame)
    exact ⟨⟨call, hothers _ _ hcall (.inr (hid ▸ hids)), hid, hrest⟩, fun _ => hids⟩

/-- A request of an execution is refused. -/
theorem serve_refused (h : RuntimeInv s) {i : ℕ} {x : Execution} (hx : s.executions[i]? = some x)
    {messages : List CallMessage} (hstaged : Execution.Staged { x with messages })
    (hgranted : granted x.budget.amount ∈ messages → x.IsGranted)
    (hsettles : ∀ used, (∃ committed, { request := .settle used, committed := committed } ∈ x.messages) →
      ∃ committed, { request := .settle used, committed := committed } ∈ messages)
    (hnone : ∀ used, { request := .settle used, committed := some true } ∉ messages) :
    RuntimeInv (RuntimeState.mk s.plane (s.executions.set i { x with messages })) := by
  refine h.of_serve hx h.reachable hstaged rfl (fun hg => ?_) fun j z hz hne hgz => ⟨?_, fun hg => ?_⟩
  · obtain ⟨call, hcall, hid, hreserved, hused, -⟩ :=
      h.backed x (List.mem_of_getElem? hx) (hgranted hg)
    exact ⟨call, hcall, hid, hreserved, fun v hv => hsettles _ (hused v hv),
      fun v hv => absurd hv (hnone _)⟩
  · exact h.backed z (List.mem_of_getElem? hz) hgz
  · exact fun hsame => hne (h.distinct j i z x hz hx hgz (hgranted hg) hsame)

/-- **The server takes a request, and commits it or not.** -/
theorem serve (h : RuntimeInv s) {i j : ℕ} {env : Env} {x : Execution}
    (hx : s.executions[i]? = some x) {effect : CallEffect}
    (hj : x.messages[j]? = some { request := effect, committed := none }) {req : Request}
    (hreq : x.request effect = some req) :
    RuntimeInv (RuntimeState.mk (step s.plane (.request env req)) (s.executions.set i { x with
      messages := x.messages.set j
        { request := effect, committed := some (req.commit? s.plane env).isSome } })) := by
  have hstaged := h.staged x (List.mem_of_getElem? hx)
  have hserved := hstaged.serve hj (req.commit? s.plane env).isSome
  rcases hstaged.messages_eq with hnil | ⟨committed, hone⟩ | ⟨used, committed, htwo, -⟩
  · rw [hnil] at hj
    exact absurd hj (by simp)
  · -- The reservation.
    obtain ⟨rfl, rfl, rfl⟩ : j = 0 ∧ effect = .reserve x.budget.amount ∧ committed = none := by
      rw [hone] at hj
      match j, hj with
      | 0, hj =>
        obtain ⟨heffect, hnone⟩ := CallMessage.mk.inj (Option.some.inj hj)
        exact ⟨rfl, heffect.symm, hnone⟩
    have hset : x.messages.set 0 ⟨.reserve x.budget.amount, some (req.commit? s.plane env).isSome⟩ =
        [⟨.reserve x.budget.amount, some (req.commit? s.plane env).isSome⟩] := by
      rw [hone]
      rfl
    rw [hset] at hserved ⊢
    cases hcommits : (req.commit? s.plane env).isSome with
    | true =>
      rw [hcommits] at hserved
      exact h.serve_reserve hx hreq hcommits hserved
    | false =>
      rw [hcommits] at hserved
      rw [step_of_not_commit (by simpa using hcommits)]
      refine h.serve_refused hx hserved (fun hg => ?_) (fun used hu => ?_) fun used hu => ?_
      · simp [granted] at hg
      · rw [hone] at hu
        simp at hu
      · simp at hu
  · -- The settlement: the reservation before it was taken already.
    obtain ⟨rfl, rfl, rfl⟩ : j = 1 ∧ effect = .settle used ∧ committed = none := by
      rw [htwo] at hj
      match j, hj with
      | 0, hj => exact absurd (CallMessage.mk.inj (Option.some.inj hj)).2 (by simp)
      | 1, hj =>
        obtain ⟨heffect, hnone⟩ := CallMessage.mk.inj (Option.some.inj hj)
        exact ⟨rfl, heffect.symm, hnone⟩
    have hset : x.messages.set 1 ⟨.settle used, some (req.commit? s.plane env).isSome⟩ =
        [granted x.budget.amount, ⟨.settle used, some (req.commit? s.plane env).isSome⟩] := by
      rw [htwo]
      rfl
    rw [hset] at hserved ⊢
    cases hcommits : (req.commit? s.plane env).isSome with
    | true =>
      rw [hcommits] at hserved
      exact h.serve_settle hx htwo hreq hcommits hserved
    | false =>
      rw [hcommits] at hserved
      rw [step_of_not_commit (by simpa using hcommits)]
      refine h.serve_refused hx hserved (fun _ => ?_) (fun used' hu => ?_) fun used' hu => ?_
      · unfold Execution.IsGranted
        rw [htwo]
        exact List.mem_cons_self
      · rw [htwo] at hu
        obtain ⟨c, hu⟩ := hu
        obtain ⟨rfl, -⟩ := mem_settle hu
        exact ⟨_, List.mem_cons_of_mem _ (List.mem_singleton_self _)⟩
      · exact absurd (mem_settle hu).2 (by simp)

/-- **Every event keeps the invariant.** -/
theorem step (h : RuntimeInv s) (e : RuntimeEvent) : RuntimeInv (runtimeStep s e) := by
  cases e with
  | plane e =>
    change RuntimeInv (if Event.spends e then s else _)
    split
    · exact h
    · rename_i he
      exact h.plane (by simpa using he)
  | start budget requestId => exact h.start budget requestId
  | send i => exact h.modify i (fun x => Execution.Staged.send) .send
  | serve i j env =>
    rw [runtimeStep]
    split
    · exact h
    · rename_i x hx
      split
      · rename_i effect hj
        split
        · exact h
        · rename_i req hreq
          exact h.serve hx hj hreq
      · exact h
  | deliver i => exact h.modify i (fun x => Execution.Staged.deliver) .deliver
  | fail i e => exact h.modify i (fun x hx => hx.fail e) (.resume · _)
  | invoke i truth => exact h.modify i (fun x hx => hx.invoke truth) fun x => .invoke x truth
  | answer i outcome =>
    exact h.modify i (fun x hx => hx.answer outcome) fun x => .answer x outcome

theorem run (es : List RuntimeEvent) : RuntimeInv (runtimeMachine.run es) :=
  runtimeMachine.invariant init (fun _ e h => h.step e) (runtimeMachine.reachable_run es)

end RuntimeInv

end Runtime

end AgentReliability
