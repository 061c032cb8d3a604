import AgentReliability.Runtime.CallLedger
/-!
# Every call is charged

No execution of `budget_call` calls the provider without a reservation of
its own, and what it returns has been settled. So a run is charged at least
what its calls have spent, apart from what they have spent beyond the usage
that was reported.
-/

namespace AgentReliability

namespace Runtime

open ControlPlane

/-! ## Every call is charged -/

namespace Execution

/-- The provider is called next, or was. -/
def Invokes (x : Execution) : Prop := x.program.effect? = some .invoke ∨ x.truth.isSome

/-- **No call without a reservation.** -/
theorem Staged.isGranted {x : Execution} (h : x.Staged) (hinvokes : x.Invokes) : x.IsGranted := by
  obtain ⟨budget, requestId, program, waiting, messages, truth, reported⟩ := x
  change Stage budget.amount budget.limit program waiting messages truth reported at h
  change program.effect? = some .invoke ∨ truth.isSome at hinvokes
  change granted budget.amount ∈ messages
  cases h with
  | toInvoke => exact List.mem_cons_self
  | toSettle => exact List.mem_cons_self
  | settling => exact List.mem_cons_self
  | returned => exact List.mem_cons_self
  | raised t he h =>
    rcases h with rfl | ⟨used, committed, rfl, -⟩
    · exact List.mem_cons_self
    · exact List.mem_cons_self
  | toReserve => simp at hinvokes
  | reserving => simp at hinvokes
  | refused => simp at hinvokes

/-- What an execution settles is what was reported. -/
theorem Staged.reported_of_settle {x : Execution} (h : x.Staged) {v : ℕ} {committed : Option Bool}
    (hm : { request := CallEffect.settle (some v), committed := committed } ∈ x.messages) :
    x.reported = some v := by
  rcases h.messages_eq with hnil | ⟨c, hone⟩ | ⟨used, c, htwo, hused⟩
  · rw [hnil] at hm
    exact absurd hm List.not_mem_nil
  · rw [hone] at hm
    simp at hm
  · rw [htwo] at hm
    obtain ⟨rfl, -⟩ := RuntimeInv.mem_settle hm
    exact hused v rfl

/-- A call returns only once its settlement was committed. -/
theorem Staged.settled_of_returned {x : Execution} (h : x.Staged) {result : ModelResponse}
    (hend : x.program.outcome? = some (.ok result)) :
    ∃ used : ℕ, readUsage result = .ok used ∧ used ≤ x.budget.limit ∧ x.IsGranted ∧
      { request := CallEffect.settle (some used), committed := some true } ∈ x.messages := by
  obtain ⟨budget, requestId, program, waiting, messages, truth, reported⟩ := x
  change Stage budget.amount budget.limit program waiting messages truth reported at h
  change program.outcome? = some (.ok result) at hend
  cases h with
  | @returned result' used t hread hlimit =>
    obtain rfl : result' = result := by simpa using hend
    exact ⟨used, hread, hlimit, List.mem_cons_self,
      List.mem_cons_of_mem _ (List.mem_singleton_self _)⟩
  | _ => simp at hend

/-- **After the provider was called, an `Exception` is `UsageUnknown`.** -/
theorem Staged.usageUnknown_of_raised {x : Execution} (h : x.Staged) (hcalled : x.truth.isSome)
    {e : PyException} (hend : x.program.outcome? = some (.error e)) (he : e.isException) :
    ∃ message, e = .usageUnknown message := by
  obtain ⟨budget, requestId, program, waiting, messages, truth, reported⟩ := x
  change Stage budget.amount budget.limit program waiting messages truth reported at h
  change program.outcome? = some (.error e) at hend
  change truth.isSome at hcalled
  cases h with
  | @raised messages reported e' t hexception h =>
    obtain rfl : e' = e := by simpa using hend
    exact hexception he
  | refused => simp at hcalled
  | _ => simp at hend

/-- What the call of an execution used beyond its reservation, while its
settlement is not committed. -/
def excess (calls : List BudgetCall) (x : Execution) : ℕ :=
  if calls.any fun call => call.id = x.requestId ∧ call.status = .settled then 0
  else x.spent - x.budget.amount

/-- The metadata, where it can be read, does not report less than was used. -/
def Reports (x : Execution) : Prop := ∀ v ∈ x.reported, x.spent ≤ v

end Execution

/-- The executions for one run. -/
def RuntimeState.ofRun (s : RuntimeState) (runId : RunId) : List Execution :=
  s.executions.filter fun x => x.budget.runId = runId

namespace RuntimeInv

variable {s : RuntimeState}

/-- The executions that called the provider have ids of their own. -/
theorem nodup_called (h : RuntimeInv s) :
    ((s.executions.filter (·.truth.isSome)).map (·.requestId)).Nodup := by
  have hpairs : s.executions.Pairwise fun x y => x.IsGranted → y.IsGranted →
      x.requestId ≠ y.requestId := by
    refine List.pairwise_iff_getElem.mpr fun i j hi hj hij hx hy hid => ?_
    have := h.distinct i j _ _ (List.getElem?_eq_getElem hi) (List.getElem?_eq_getElem hj) hx hy hid
    omega
  refine List.pairwise_map.mpr (((hpairs.filter _).imp_of_mem fun hx hy hne => ?_))
  obtain ⟨hx, hcx⟩ := List.mem_filter.mp hx
  obtain ⟨hy, hcy⟩ := List.mem_filter.mp hy
  exact hne ((h.staged _ hx).isGranted (.inr hcx)) ((h.staged _ hy).isGranted (.inr hcy))

/-- What one call used is within the charge of its entry, and its excess. -/
theorem spent_le (h : RuntimeInv s) {x : Execution} (hx : x ∈ s.executions)
    (hcalled : x.truth.isSome) (hreports : x.Reports) {r : RunRows}
    (hr : s.plane.db.runs[x.budget.runId]? = some r) :
    ∃ call ∈ r.budgetCalls, call.id = x.requestId ∧
      x.spent - x.excess r.budgetCalls ≤ Reservation.charge BudgetCall.reserved BudgetCall.used call := by
  have hstaged := h.staged x hx
  obtain ⟨call, ⟨r', hr', hcall⟩, hid, hreserved, hused, -⟩ :=
    h.backed x hx (hstaged.isGranted (.inr hcalled))
  obtain rfl := Option.some.inj (hr'.symm.trans hr)
  have hinv : r'.core.CallsInv := by
    obtain ⟨es, hes⟩ := h.reachable
    rw [← hes] at hr
    exact callsInv_of_run es hr
  refine ⟨call, hcall, hid, ?_⟩
  unfold Reservation.charge
  cases hv : call.used with
  | some v =>
    -- It was settled with what the response reports.
    obtain ⟨committed, hm⟩ := hused v hv
    have := hreports v (hstaged.reported_of_settle hm)
    rw [Option.getD_some]
    omega
  | none =>
    have hopen : ¬ (r'.budgetCalls.any fun call =>
        call.id = x.requestId ∧ call.status = .settled) = true := by
      intro hany
      obtain ⟨other, hother, hboth⟩ := List.any_eq_true.mp hany
      obtain ⟨hoid, hsettled⟩ : other.id = x.requestId ∧ other.status = .settled := by
        simpa using hboth
      obtain rfl := hinv.eq_of_id hother hcall (hoid.trans hid.symm)
      have hsome := (hinv.settled_iff other hother).mp hsettled
      rw [hv] at hsome
      exact absurd hsome (by decide)
    unfold Execution.excess
    rw [if_neg hopen, Option.getD_none, hreserved]
    omega

/-- **The calls of a run are charged**, but for what those that are not
settled used beyond their reservations. -/
theorem sum_spent_le (h : RuntimeInv s) {runId : RunId} {r : RunRows}
    (hr : s.plane.db.runs[runId]? = some r)
    (hreports : ∀ x ∈ s.ofRun runId, x.Reports) :
    ((s.ofRun runId).map (·.spent)).sum ≤
      charges r.budgetCalls + ((s.ofRun runId).map (·.excess r.budgetCalls)).sum := by
  have hrun : ∀ x ∈ s.ofRun runId, x ∈ s.executions ∧ x.budget.runId = runId := fun x hx => by
    simpa [RuntimeState.ofRun] using hx
  -- Only the executions that called the provider have used anything.
  have hsplit : ∀ l : List Execution, (l.map (·.spent)).sum ≤
      ((l.filter (·.truth.isSome)).map fun x => x.spent - x.excess r.budgetCalls).sum +
        (l.map (·.excess r.budgetCalls)).sum := by
    intro l
    induction l with
    | nil => exact Nat.zero_le _
    | cons x l ih =>
      rw [List.filter_cons]
      split
      · simp only [List.map_cons, List.sum_cons]
        omega
      · rename_i hcalled
        have hnone : x.spent = 0 := by
          simp [Execution.spent, Option.not_isSome_iff_eq_none.mp hcalled]
        simp only [List.map_cons, List.sum_cons]
        omega
  refine (hsplit _).trans (Nat.add_le_add_right ?_ _)
  rw [charges_eq]
  refine Reservation.sum_le_of_matched (·.id) (·.requestId) ?_ fun x hx => ?_
  · unfold RuntimeState.ofRun
    rw [List.filter_comm]
    exact h.nodup_called.sublist (List.filter_sublist.map _)
  · obtain ⟨hx, hcalled⟩ := List.mem_filter.mp hx
    obtain ⟨hmem, rfl⟩ := hrun x hx
    exact h.spent_le hmem hcalled (hreports x hx) hr

end RuntimeInv

/-! ## The result -/

/-- **The ledger and the calls.** In every reachable state, an execution
that is to call the provider, or has called it, has an entry of its own for
all it reserved; if no metadata reports less than was used, the provider
used at most what the ledger charges and what the calls that are not settled
used beyond their reservations; a call that returned is settled with the
tokens it reports, within its limit; and an `Exception` after the provider
was called is `UsageUnknown`, which condenser and judge raise again. -/
theorem calls_charged (es : List RuntimeEvent) :
    (∀ (i : ℕ) (x : Execution), (runtimeMachine.run es).executions[i]? = some x → x.Invokes →
      (∃ call, HasCall (runtimeMachine.run es).plane x.budget.runId call ∧ call.id = x.requestId ∧
        call.reserved = x.budget.amount) ∧
      ∀ (j : ℕ) (y : Execution), (runtimeMachine.run es).executions[j]? = some y → y.Invokes →
        y.requestId = x.requestId → j = i) ∧
    (∀ (runId : RunId) (r : RunRows), (runtimeMachine.run es).plane.db.runs[runId]? = some r →
      (∀ x ∈ (runtimeMachine.run es).ofRun runId, x.Reports) →
      (((runtimeMachine.run es).ofRun runId).map (·.spent)).sum ≤ charges r.budgetCalls +
        (((runtimeMachine.run es).ofRun runId).map (·.excess r.budgetCalls)).sum) ∧
    ∀ x ∈ (runtimeMachine.run es).executions,
      (∀ result, x.program.outcome? = some (.ok result) →
        ∃ call, ∃ used : ℕ, HasCall (runtimeMachine.run es).plane x.budget.runId call ∧
          call.id = x.requestId ∧ call.status = .settled ∧ call.used = some used ∧
          readUsage result = .ok used ∧ used ≤ x.budget.limit) ∧
      (x.truth.isSome → ∀ e, x.program.outcome? = some (.error e) → e.isException →
        (∃ message, e = .usageUnknown message) ∧
        (∀ summarize placeholder, condense summarize placeholder (.error e) = .error e) ∧
        ∀ (Report : Type) (parse : ModelResponse → Except PyException Report),
          judge parse (.error e) = .error e) := by
  have hinv := RuntimeInv.run es
  refine ⟨fun i x hx hinvokes => ?_, fun runId r hr hreports => hinv.sum_spent_le hr hreports,
    fun x hx => ⟨fun result hend => ?_, fun hcalled e hend he => ?_⟩⟩
  · have hgranted := (hinv.staged x (List.mem_of_getElem? hx)).isGranted hinvokes
    obtain ⟨call, hcall, hid, hreserved, -⟩ := hinv.backed x (List.mem_of_getElem? hx) hgranted
    refine ⟨⟨call, hcall, hid, hreserved⟩, fun j y hy hyinvokes hsame => ?_⟩
    have hyg := (hinv.staged y (List.mem_of_getElem? hy)).isGranted hyinvokes
    exact hinv.distinct j i y x hy hx hyg hgranted hsame
  · obtain ⟨used, hread, hlimit, hgranted, hm⟩ := (hinv.staged x hx).settled_of_returned hend
    obtain ⟨call, hcall, hid, -, -, hsettled⟩ := hinv.backed x hx hgranted
    obtain ⟨hstatus, hused⟩ := hsettled used hm
    exact ⟨call, used, hcall, hid, hstatus, hused, hread, hlimit⟩
  · obtain ⟨message, rfl⟩ := (hinv.staged x hx).usageUnknown_of_raised hcalled hend he
    exact ⟨⟨message, rfl⟩, fun _ _ => rfl, fun _ _ => rfl⟩

/-- A response that reports its usage. -/
def reporting (input output : ℤ) : ModelResponse where
  content := ""
  usage := .ok (some { inputTokens := some (.ok input), outputTokens := some (.ok output) })

/-- A call of run 0 that reserves 10 tokens, up to its response. -/
def calledRun (truth : ℕ) (input output : ℤ) : List RuntimeEvent := [
  .plane (.confirm (envAt 0) (smallConfirm "key") 0),
  .plane (claimAt 1000 0 1 1),
  .start { runId := 0, attemptId := ⟨0, 0⟩, token := some 7, inputLimit := 4, outputLimit := 6 } 1,
  .send 0,
  .serve 0 0 (envAt 2000),
  .deliver 0,
  .invoke 0 truth,
  .answer 0 (.ok (reporting input output))]

/-- The settlement of that call, and its response. -/
def settlement : List RuntimeEvent := [.send 0, .serve 0 1 (envAt 3000), .deliver 0]

/-- The ledger of a run, and what its executions used. -/
def RuntimeState.account (s : RuntimeState) (runId : RunId) : Option (ℕ × ℕ) :=
  s.plane.db.runs[runId]?.map fun r =>
    (charges r.budgetCalls, ((s.ofRun runId).map (·.spent)).sum)

/-- A call that uses 12 of 10 reserved tokens and says so is charged 10 until
it is settled; and a call that uses 8 and reports 5 is charged 5 once it
is. -/
theorem call_charged_less :
    (runtimeMachine.run (calledRun 12 5 7)).account 0 = some (10, 12) ∧
      (∀ x ∈ (runtimeMachine.run (calledRun 12 5 7)).executions, x.reported = x.truth) ∧
      (runtimeMachine.run (calledRun 8 2 3 ++ settlement)).account 0 = some (5, 8) ∧
      ∀ x ∈ (runtimeMachine.run (calledRun 8 2 3 ++ settlement)).executions,
        x.spent ≤ x.budget.amount := by
  decide

/-- A call that returns: it has its entry, is settled with what it reports,
and the run is charged all it used. -/
theorem calls_charged_of_returned :
    ∃ (x : Execution) (r : RunRows),
      (runtimeMachine.run (calledRun 5 2 3 ++ settlement)).executions[0]? = some x ∧
      (runtimeMachine.run (calledRun 5 2 3 ++ settlement)).plane.db.runs[0]? = some r ∧
      (∃ call, HasCall (runtimeMachine.run (calledRun 5 2 3 ++ settlement)).plane x.budget.runId call ∧
        call.id = x.requestId ∧ call.reserved = x.budget.amount) ∧
      (((runtimeMachine.run (calledRun 5 2 3 ++ settlement)).ofRun 0).map (·.spent)).sum ≤
        charges r.budgetCalls + (((runtimeMachine.run (calledRun 5 2 3 ++ settlement)).ofRun 0).map
          (·.excess r.budgetCalls)).sum ∧
      ∃ call, ∃ used : ℕ,
        HasCall (runtimeMachine.run (calledRun 5 2 3 ++ settlement)).plane x.budget.runId call ∧
          call.id = x.requestId ∧ call.status = .settled ∧ call.used = some used ∧
          readUsage (reporting 2 3) = .ok used ∧ (used : ℤ) ≤ x.budget.limit := by
  obtain ⟨hentry, hsum, hend⟩ := calls_charged (calledRun 5 2 3 ++ settlement)
  obtain ⟨x, hx⟩ : ∃ x, (runtimeMachine.run (calledRun 5 2 3 ++ settlement)).executions[0]? =
      some x := ⟨_, rfl⟩
  obtain ⟨r, hr⟩ : ∃ r, (runtimeMachine.run (calledRun 5 2 3 ++ settlement)).plane.db.runs[0]? =
      some r := ⟨_, rfl⟩
  have hcalled : ((runtimeMachine.run (calledRun 5 2 3 ++ settlement)).executions[0]?).all
      (·.truth.isSome) = true := by decide
  have hreports : ∀ x ∈ (runtimeMachine.run (calledRun 5 2 3 ++ settlement)).ofRun 0,
      ∀ v ∈ x.reported, x.spent ≤ v := by decide
  have hreturned : ((runtimeMachine.run (calledRun 5 2 3 ++ settlement)).executions[0]?).map
      (·.program.outcome?) = some (some (.ok (reporting 2 3))) := rfl
  rw [hx] at hcalled hreturned
  exact ⟨x, r, hx, hr, (hentry 0 x hx (.inr hcalled)).1, hsum 0 r hr hreports,
    (hend x (List.mem_of_getElem? hx)).1 _ (Option.some.inj hreturned)⟩

end Runtime

end AgentReliability
