import AgentReliability.ControlPlane.Ledger
/-!
# A run goes on from a settled ledger only

A snapshot run goes on to another attempt or to its approval in three
places: the success of an attempt, the recovery policy and the resume by a
person. Each refuses unsettled calls under the run lock, so a run that
waits or has succeeded has a settled ledger, its `usedTokens` is the sum of
what was used, and the command of the next attempt carries what is left of
the budget.
-/

namespace AgentReliability

namespace ControlPlane

/-- The sum of what the calls used. -/
def usedSum (calls : List BudgetCall) : ℕ := (calls.map fun call => call.used.getD 0).sum

namespace RunCore

/-- **The ledger of a snapshot run.** -/
structure LedgerInv (c : RunCore) : Prop where
  /-- A run that waits, or has succeeded, has settled every call. -/
  settled : c.status = .dispatched ∨ c.status = .succeeded → c.Settled
  /-- Once every call is settled, the column is the sum of the charges. -/
  used : c.Settled → c.usedTokens = charges c.calls

/-- A call entered now is not settled. -/
theorem not_settled_reserve {c : RunCore} {id : CallId} {reserved : ℕ} :
    ¬ ({ c with calls := c.calls ++ [{ id, reserved }] } : RunCore).Settled := by
  intro h
  have := h { id, reserved } (List.mem_append_right _ List.mem_cons_self)
  exact absurd this (by simp)

/-- **Every step of a snapshot run keeps its ledger.** -/
theorem LedgerInv.step {c d : RunCore} (hsnap : c.snapshot.isSome) (h : LedgerInv c)
    (hs : Step c d) : LedgerInv d := by
  cases hs with
  | stay => exact h
  | claim => exact ⟨fun hd => absurd hd (by simp), h.used⟩
  | succeed _ _ _ hledger =>
    obtain ⟨hsettled, hused⟩ := hledger hsnap
    exact ⟨fun _ => hsettled, fun hd => hused.trans (h.used hd)⟩
  | park _ _ _ hused =>
    exact ⟨fun hd => absurd hd (by simp), fun hd => (hused hsnap).trans (h.used hd)⟩
  | redispatch _ _ _ _ _ hledger =>
    obtain ⟨hsettled, hused⟩ := hledger hsnap
    exact ⟨fun _ => hsettled, fun hd => hused.trans (h.used hd)⟩
  | abort _ _ _ hused =>
    exact ⟨fun hd => absurd hd (by simp), fun hd => (hused hsnap).trans (h.used hd)⟩
  | cancel => exact ⟨fun hd => absurd hd (by simp), h.used⟩
  | resume _ _ _ hsettled => exact ⟨fun _ => hsettled, h.used⟩
  | checkpoint _ hused => exact ⟨h.settled, fun hd => (hused hsnap).trans (h.used hd)⟩
  | reserve hstatus =>
    refine ⟨fun hd => ?_, fun hd => absurd hd not_settled_reserve⟩
    change c.status = .dispatched ∨ c.status = .succeeded at hd
    rw [hstatus] at hd
    exact absurd hd (by decide)
  | settle hcall hopen => exact ⟨fun hd => absurd (h.settled hd _ hcall) hopen, fun _ => rfl⟩

theorem Created.ledgerInv {c : RunCore} (h : c.Created) : LedgerInv c := by
  refine ⟨fun _ call hcall => ?_, fun _ => ?_⟩
  · rw [h.calls] at hcall
    exact absurd hcall List.not_mem_nil
  · rw [h.usedTokens, h.calls]
    rfl

/-- **A command sent by a step of a snapshot run** leaves the ledger as it
was, settled, and carries what it allows. -/
theorem Step.sent {c d : RunCore} (hsnap : c.snapshot.isSome) (hs : Step c d) {j : ℕ}
    (hj : c.commands.length ≤ j) {command : RunCommand} (hd : d.commands[j]? = some command) :
    c.CarriesBudget command ∧ c.Settled ∧ d.calls = c.calls := by
  have hlast : ∀ {x : RunCommand}, (c.commands ++ [x])[j]? = some command → x = command := by
    intro x hx
    rw [List.getElem?_append_right hj] at hx
    have := List.mem_of_getElem? hx
    exact (List.mem_singleton.mp this).symm
  have hnone : c.commands[j]? ≠ some command := by
    rw [List.getElem?_eq_none hj]
    simp
  cases hs with
  | redispatch _ _ _ _ _ hledger _ _ hbudget =>
    obtain rfl := hlast hd
    exact ⟨hbudget, (hledger hsnap).1, rfl⟩
  | resume _ _ _ hsettled _ _ hbudget =>
    obtain rfl := hlast hd
    exact ⟨hbudget, hsettled, rfl⟩
  | _ => exact absurd hd hnone

end RunCore

/-- A settled ledger is charged what was used. -/
theorem charges_of_settled {c : RunCore} (hinv : c.CallsInv) (h : c.Settled) :
    charges c.calls = usedSum c.calls := by
  unfold charges usedSum
  congr 1
  refine List.map_congr_left fun call hcall => ?_
  obtain ⟨n, hn⟩ := Option.isSome_iff_exists.mp ((hinv.settled_iff call hcall).mp (h call hcall))
  rw [BudgetCall.charge, hn]
  rfl

theorem ledgerInv_of_run (es : List Event) {id : RunId} {r : RunRows}
    (hr : (machine.run es).db.runs[id]? = some r) (hsnap : r.isSnapshot) : r.core.LedgerInv :=
  core_invariant (P := fun c => c.snapshot.isSome → c.LedgerInv) (fun hc _ _ => hc.ledgerInv)
    (fun {c d} _ hP hs hd => by
      have hsame : d.snapshot = c.snapshot := (RunCore.Later.of_step hs).snapshot
      rw [hsame] at hd
      exact (hP hd).step hd hs) es hr hsnap

/-- The commands of a creation: one, which carries the whole budget. -/
theorem creation_remaining {ctx : Context} {r : RunRows} (hc : Creates ctx r) (hsnap : r.isSnapshot)
    {j : ℕ} {m : OutboxMessage} (hm : r.outbox[j]? = some m) :
    j = 0 ∧ m.payload.budget.remainingTokens = r.run.budgetTokens := by
  obtain ⟨hcreated, hfrozen⟩ := hc.created
  obtain ⟨command, hcommands, -, -, hremaining⟩ := hcreated.command
  have hat : r.core.commands[j]? = some m.payload := by simp [RunRows.core, hm]
  rw [hcommands] at hat
  obtain ⟨snapshot, hs⟩ := Option.isSome_iff_exists.mp hsnap
  have hlt := (List.getElem?_eq_some_iff.mp hat).1
  rw [List.length_singleton] at hlt
  obtain rfl : j = 0 := by omega
  obtain rfl : command = m.payload := Option.some.inj hat
  exact ⟨rfl, (hremaining snapshot hs).trans (hfrozen snapshot hs).1⟩

/-- **A run goes on from a settled ledger only, and a retry inherits the
exact remainder.** A snapshot run that waits or has succeeded has settled
every call, and its `usedTokens` is what they used; and a command that an
event writes carries the budget less what was used at that moment, which
leaves at least a token and a second for every command but the first. -/
theorem retries_inherit_remainder :
    (∀ (es : List Event) (id : RunId) (r : RunRows), (machine.run es).db.runs[id]? = some r →
      r.isSnapshot → r.run.status = .dispatched ∨ r.run.status = .succeeded →
        (∀ call ∈ r.budgetCalls, call.status = .settled) ∧
          r.run.usedTokens = usedSum r.budgetCalls) ∧
    ∀ (es : List Event) (e : Event) (id : RunId) (r' : RunRows),
      (machine.run (es ++ [e])).db.runs[id]? = some r' → r'.isSnapshot →
      ∀ (j : ℕ) (m : OutboxMessage), r'.outbox[j]? = some m →
        (∀ r, (machine.run es).db.runs[id]? = some r → r.outbox.length ≤ j) →
        m.payload.budget.remainingTokens = r'.run.budgetTokens - usedSum r'.budgetCalls ∧
          (0 < j → 1 ≤ m.payload.budget.remainingTokens ∧
            1 ≤ m.payload.budget.remainingSeconds) := by
  refine ⟨fun es id r hr hsnap hstatus => ?_, fun es e id r' hr' hsnap j m hm hnew => ?_⟩
  · have hinv := ledgerInv_of_run es hr hsnap
    have hsettled := hinv.settled hstatus
    exact ⟨hsettled, (hinv.used hsettled).trans (charges_of_settled (callsInv_of_run es hr) hsettled)⟩
  · have hs := sound_of_reachable (machine.reachable_run es)
    rw [machine.run_concat] at hr'
    rcases rows_step hs e hr' with ⟨env, hid, hcreates⟩ | hsame | ⟨env, r, hr, hrow, -⟩
    · obtain ⟨rfl, hremaining⟩ := creation_remaining hcreates hsnap hm
      have hcalls : r'.budgetCalls = [] := hcreates.created.1.calls
      refine ⟨?_, fun hpos => absurd hpos (Nat.lt_irrefl 0)⟩
      rw [hremaining, hcalls]
      rfl
    · -- The run was not written, so it has no new message.
      have hlt := (List.getElem?_eq_some_iff.mp hm).1
      have := hnew r' hsame
      omega
    · obtain ⟨hinv, hfrozen⟩ := hs.rows hr
      have hstep := hrow.core hr hinv hfrozen
      have hlater := RunCore.Later.of_step hstep
      have hsnap' : r.core.snapshot.isSome := by rw [← hlater.snapshot]; exact hsnap
      have hcommand : r'.core.commands[j]? = some m.payload := by simp [RunRows.core, hm]
      obtain ⟨hbudget, hsettled, hcalls⟩ := hstep.sent hsnap'
        (by simpa [RunRows.core] using hnew r hr) hcommand
      obtain ⟨snapshot, hsome⟩ := Option.isSome_iff_exists.mp hsnap'
      obtain ⟨htokens, hleft, hseconds⟩ := hbudget snapshot hsome
      have hused : r.core.usedTokens = usedSum r'.budgetCalls := by
        change _ = usedSum r'.core.calls
        rw [hcalls, ← charges_of_settled (callsInv_of_run es hr) hsettled]
        exact (ledgerInv_of_run es hr hsnap').used hsettled
      have hcap : snapshot.budget.tokens = r'.run.budgetTokens := by
        rw [(hfrozen snapshot hsome).1]
        exact hlater.budgetTokens.symm
      have hcap' := (hfrozen snapshot hsome).1
      rw [hcap] at htokens hcap'
      rw [hused] at htokens hleft
      refine ⟨htokens, fun _ => ⟨?_, hseconds⟩⟩
      rw [htokens]
      omega

/-- A run that used 700 of 1000 tokens, was paused and resumed. -/
def resumedRun : List Event := [
  .confirm (envAt 0) (smallConfirm "key") 0,
  claimAt 1000 0 1 1,
  .request (envAt 2000) (.reserve 0 ⟨0, 0⟩ (some 7) 1 800),
  .request (envAt 3000) (.settle 0 1 (some 700)),
  .request (envAt 4000) (.pause ⟨0, 0⟩ (some 7) "TEMPORARY_ERROR" none)]

/-- Its second command carries the 300 that are left. -/
theorem retries_inherit_remainder_of_resumed :
    ∃ (r : RunRows) (m : OutboxMessage),
      (machine.run (resumedRun ++ [.request (envAt 5000) (.resume 0)])).db.runs[0]? = some r ∧
      r.outbox[1]? = some m ∧ usedSum r.budgetCalls = 700 ∧ r.run.usedTokens = 700 ∧
      m.payload.budget.remainingTokens = 1000 - 700 ∧ 1 ≤ m.payload.budget.remainingSeconds := by
  obtain ⟨r, hr⟩ : ∃ r, (machine.run (resumedRun ++
    [.request (envAt 5000) (.resume 0)])).db.runs[0]? = some r := ⟨_, rfl⟩
  have hfacts : ((machine.run (resumedRun ++
      [.request (envAt 5000) (.resume 0)])).db.runs[0]?).map (fun r =>
        (r.isSnapshot, r.run.status, r.run.budgetTokens, usedSum r.budgetCalls, r.outbox.length)) =
      some (true, .dispatched, 1000, 700, 2) := by decide
  rw [hr, Option.map_some, Option.some.injEq] at hfacts
  simp only [Prod.mk.injEq] at hfacts
  obtain ⟨hsnap, hstatus, htokens, hsum, hlen⟩ := hfacts
  have hm : r.outbox[1]? = some r.outbox[1] := List.getElem?_eq_getElem (by omega)
  have hbefore : ∀ x, (machine.run resumedRun).db.runs[0]? = some x → x.outbox.length ≤ 1 := by
    intro x hx
    have : ((machine.run resumedRun).db.runs[0]?).map (·.outbox.length) = some 1 := by decide
    rw [hx] at this
    exact (Option.some.inj this).le
  have hused := (retries_inherit_remainder.1 _ 0 r hr hsnap (.inl hstatus)).2
  obtain ⟨hremaining, hpositive⟩ := retries_inherit_remainder.2 resumedRun _ 0 r hr hsnap 1 _ hm
    hbefore
  rw [htokens, hsum] at hremaining
  exact ⟨r, _, hr, hm, hsum, hused.trans hsum, hremaining, (hpositive Nat.one_pos).2⟩

end ControlPlane

end AgentReliability
