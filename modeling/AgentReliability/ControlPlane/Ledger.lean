import AgentReliability.Common.Reservation
import AgentReliability.ControlPlane.EventLog
import Mathlib.Data.List.Nodup
/-!
# The token ledger

Every model call of a run is an entry of its ledger. A reservation is
granted out of what the charges leave of the budget, and a call that is
not settled stays charged with its reservation. So the charges exceed the
budget only by what settled calls used beyond their reservations, whoever
settles and when; a settled call is final; and no id is reserved twice.
-/

namespace AgentReliability

namespace ControlPlane

open Reservation

/-- What the settled calls used beyond their reservations. -/
def overruns (calls : List BudgetCall) : ℕ :=
  ((calls.filter fun call => call.status = .settled).map fun call =>
    call.used.getD 0 - call.reserved).sum

/-- The charges are those of a reservation ledger, and so are the overruns
once only settled calls carry a use. -/
theorem charges_eq (calls : List BudgetCall) :
    charges calls = (calls.map (charge BudgetCall.reserved BudgetCall.used)).sum := rfl

theorem overruns_eq {calls : List BudgetCall}
    (h : ∀ call ∈ calls, call.status = .settled ↔ call.used.isSome) :
    overruns calls = (calls.map (overrun BudgetCall.reserved BudgetCall.used)).sum := by
  induction calls with
  | nil => rfl
  | cons call calls ih =>
    have hcall := h call List.mem_cons_self
    have htail := ih fun x hx => h x (List.mem_cons_of_mem _ hx)
    unfold overruns at htail ⊢
    rw [List.map_cons, List.sum_cons, ← htail, List.filter_cons]
    cases hused : call.used with
    | none =>
      rw [hused] at hcall
      rw [if_neg (by simpa using hcall)]
      simp [overrun, hused]
    | some n =>
      rw [hused] at hcall
      rw [if_pos (by simpa using hcall)]
      simp [overrun, hused]

@[simp] theorem settleWith_id (used : Option ℕ) (call : BudgetCall) :
    (call.settleWith used).id = call.id := rfl

@[simp] theorem settleWith_reserved (used : Option ℕ) (call : BudgetCall) :
    (call.settleWith used).reserved = call.reserved := rfl

/-- A settlement keeps the ids of the calls. -/
theorem settleCall_map_id (id : CallId) (used : Option ℕ) (calls : List BudgetCall) :
    (settleCall id used calls).map (·.id) = calls.map (·.id) := by
  unfold settleCall
  rw [List.map_map]
  refine List.map_congr_left fun call _ => ?_
  simp only [Function.comp_apply]
  split <;> rfl

theorem settleCall_getElem? (id : CallId) (used : Option ℕ) (calls : List BudgetCall) (i : ℕ) :
    (settleCall id used calls)[i]? =
      calls[i]?.map fun call => if call.id = id then call.settleWith used else call :=
  List.getElem?_map

/-! ## The invariant of one run's ledger -/

namespace RunCore

structure CallsInv (c : RunCore) : Prop where
  nodup : (c.calls.map (·.id)).Nodup
  /-- A call's use is known exactly when it is settled. -/
  settled_iff : ∀ call ∈ c.calls, call.status = .settled ↔ call.used.isSome
  /-- The part of the charges the reservations cover is within the budget. -/
  capped : (c.calls.map (covered BudgetCall.reserved BudgetCall.used)).sum ≤ c.budgetTokens

/-- Two calls of one id are one call. -/
theorem CallsInv.eq_of_id {c : RunCore} (h : CallsInv c) {x y : BudgetCall} (hx : x ∈ c.calls)
    (hy : y ∈ c.calls) (hid : x.id = y.id) : x = y :=
  List.inj_on_of_nodup_map h.nodup hx hy hid

theorem CallsInv.used_of_open {c : RunCore} (h : CallsInv c) {call : BudgetCall}
    (hcall : call ∈ c.calls) (hopen : call.status ≠ .settled) : call.used = none := by
  by_contra hused
  exact hopen ((h.settled_iff call hcall).mpr (Option.isSome_iff_ne_none.mpr hused))

theorem CallsInv.reserve {c : RunCore} (h : CallsInv c) {id : CallId} {reserved : ℕ}
    (hfresh : ∀ call ∈ c.calls, call.id ≠ id)
    (hroom : reserved ≤ availableBudget c.budgetTokens c.calls) :
    CallsInv { c with calls := c.calls ++ [{ id, reserved }] } where
  nodup := by
    rw [List.map_append, List.map_singleton]
    refine List.nodup_append.mpr ⟨h.nodup, List.nodup_singleton _, fun x hx y hy => ?_⟩
    obtain ⟨call, hcall, rfl⟩ := List.mem_map.mp hx
    rw [List.mem_singleton.mp hy]
    exact hfresh call hcall
  settled_iff := by
    intro call hcall
    rcases List.mem_append.mp hcall with hcall | hcall
    · exact h.settled_iff call hcall
    · rw [List.mem_singleton.mp hcall]
      simp
  capped := sum_covered_reserve _ _ hroom h.capped

theorem CallsInv.settle {c : RunCore} (h : CallsInv c) {call : BudgetCall} {used : Option ℕ}
    (hcall : call ∈ c.calls) (hopen : call.status ≠ .settled) (usedTokens : ℕ) :
    CallsInv { c with calls := settleCall call.id used c.calls, usedTokens } where
  nodup := by
    change ((settleCall call.id used c.calls).map (·.id)).Nodup
    rw [settleCall_map_id]
    exact h.nodup
  settled_iff := by
    intro x hx
    obtain ⟨y, hy, rfl⟩ := List.mem_map.mp hx
    split
    · cases used <;> simp [BudgetCall.settleWith]
    · exact h.settled_iff y hy
  capped := by
    refine le_trans (sum_covered_settle _ _ fun x hx => ?_) h.capped
    -- Only the open call is written, and it keeps its reservation.
    by_cases hid : x.id = call.id
    · obtain rfl := h.eq_of_id hx hcall hid
      exact .inr ⟨h.used_of_open hx hopen, by simp⟩
    · exact .inl (if_neg hid)

/-- **Every step keeps the ledger within the budget.** -/
theorem CallsInv.step {c d : RunCore} (h : CallsInv c) (hs : Step c d) : CallsInv d := by
  cases hs with
  | reserve hstatus hfresh hroom => exact h.reserve hfresh hroom
  | settle hcall hopen => exact h.settle hcall hopen _
  | stay => exact h
  | claim => exact ⟨h.nodup, h.settled_iff, h.capped⟩
  | succeed => exact ⟨h.nodup, h.settled_iff, h.capped⟩
  | park => exact ⟨h.nodup, h.settled_iff, h.capped⟩
  | redispatch => exact ⟨h.nodup, h.settled_iff, h.capped⟩
  | abort => exact ⟨h.nodup, h.settled_iff, h.capped⟩
  | cancel => exact ⟨h.nodup, h.settled_iff, h.capped⟩
  | resume => exact ⟨h.nodup, h.settled_iff, h.capped⟩
  | checkpoint => exact ⟨h.nodup, h.settled_iff, h.capped⟩

theorem Created.callsInv {c : RunCore} (h : c.Created) : CallsInv c := by
  refine ⟨?_, ?_, ?_⟩ <;> rw [h.calls] <;> simp

/-- **What a ledger keeps of an earlier one**: every call, a settled one as
it is, and of one whose use was reported unknown that it was reported. -/
def CallsLater (c d : RunCore) : Prop :=
  ∀ (i : ℕ) (call : BudgetCall), c.calls[i]? = some call →
    ∃ call', d.calls[i]? = some call' ∧ call'.id = call.id ∧
      (call.status = .settled → call' = call) ∧ (call.status = .unknown → call'.status ≠ .reserved)

theorem CallsLater.refl (c : RunCore) : CallsLater c c := fun _ call h =>
  ⟨call, h, rfl, fun _ => rfl, fun hs => by rw [hs]; decide⟩

theorem CallsLater.trans {c d e : RunCore} (h₁ : CallsLater c d) (h₂ : CallsLater d e) :
    CallsLater c e := by
  intro i x hx
  obtain ⟨y, hy, hid, hsettled, hunknown⟩ := h₁ i x hx
  obtain ⟨z, hz, hid', hsettled', hunknown'⟩ := h₂ i y hy
  refine ⟨z, hz, hid'.trans hid, fun hs => ?_, fun hs => ?_⟩
  · have hyx := hsettled hs
    rw [hsettled' (by rw [hyx, hs]), hyx]
  · cases hstatus : y.status with
    | reserved => exact absurd hstatus (hunknown hs)
    | unknown => exact hunknown' hstatus
    | settled => rw [hsettled' hstatus, hstatus]; decide

/-- **A settlement is final.** -/
theorem CallsLater.of_step {c d : RunCore} (h : CallsInv c) (hs : Step c d) : CallsLater c d := by
  cases hs with
  | reserve =>
    intro i x hx
    refine ⟨x, ?_, rfl, fun _ => rfl, fun hs => by rw [hs]; decide⟩
    change (c.calls ++ [_])[i]? = some x
    rw [List.getElem?_append_left (List.getElem?_eq_some_iff.mp hx).1]
    exact hx
  | @settle call used hcall hopen =>
    intro i x hx
    have hat : (settleCall call.id used c.calls)[i]? =
        some (if x.id = call.id then x.settleWith used else x) := by
      rw [settleCall_getElem?, hx, Option.map_some]
    refine ⟨_, hat, ?_, fun hsettled => ?_, fun hunknown => ?_⟩
    · split <;> rfl
    · refine if_neg fun hid => ?_
      rw [← h.eq_of_id (List.mem_of_getElem? hx) hcall hid] at hopen
      exact hopen hsettled
    · split
      · cases used <;> simp [BudgetCall.settleWith]
      · rw [hunknown]; decide
  | _ => exact CallsLater.refl c

end RunCore

theorem callsInv_of_run (es : List Event) {id : RunId} {r : RunRows}
    (hr : (machine.run es).db.runs[id]? = some r) : r.core.CallsInv :=
  core_invariant (P := fun c => c.CallsInv) (fun hc _ => hc.callsInv)
    (fun _ hP hs => hP.step hs) es hr

/-- **What the ledger of a run keeps, whatever follows.** -/
theorem callsLater_of_run (es fs : List Event) {id : RunId} {r r' : RunRows}
    (hr : (machine.run es).db.runs[id]? = some r)
    (hr' : (machine.run (es ++ fs)).db.runs[id]? = some r') : RunCore.CallsLater r.core r'.core := by
  rw [machine.run_append] at hr'
  obtain ⟨x, hx, hlater, -⟩ := rows_relation (W := fun _ => True) (P := fun r => r.core.CallsInv)
    (R := fun a b => RunCore.CallsLater a.core b.core ∧ (a.core.CallsInv → b.core.CallsInv))
    (fun a => ⟨.refl a.core, fun h => h⟩)
    (fun h₁ h₂ => ⟨h₁.1.trans h₂.1, fun h => h₂.2 (h₁.2 h)⟩)
    (fun hP h => h.2 hP)
    (fun hr hinv hfrozen hP _ hrow => by
      have hstep := hrow.core hr hinv hfrozen
      exact ⟨.of_step hP hstep, fun h => h.step hstep⟩)
    (sound_of_reachable (machine.reachable_run es)) hr (callsInv_of_run es hr) fs
    fun _ _ => trivial
  obtain rfl := Option.some.inj (hx.symm.trans hr')
  exact hlater

/-! ## No id is reserved twice -/

/-- The ids of the calls of all runs. -/
def Database.callIds (db : Database) : List CallId :=
  db.runs.flatMap fun r => r.budgetCalls.map (·.id)

/-- The ids a transaction enters. -/
def Writer.spends : Writer → List CallId
  | spender id => [id]
  | _ => []

/-- **Only a reservation enters a call**, under an id that no run has. -/
theorem callIds_of_rowStep {ctx : Context} {r r' : RunRows} {w : Writer}
    (h : RowStep ctx r r' w) :
    r'.budgetCalls.map (·.id) = r.budgetCalls.map (·.id) ++ w.spends ∧
      ∀ id ∈ w.spends, ctx.callTaken id = false := by
  cases w with
  | spender id =>
    cases h with
    | reserve h =>
      obtain ⟨-, -, hfree, hcalls⟩ := reserve_keeps (K := fun _ => True) h
      rw [hcalls, List.map_append]
      exact ⟨rfl, fun x hx => by rw [List.mem_singleton.mp hx]; exact hfree⟩
  | claimant no =>
    rw [(grows_of_lifecycle (.inr ⟨no, rfl⟩) h).calls]
    exact ⟨by simp [Writer.spends], by simp [Writer.spends]⟩
  | lifecycle =>
    rw [(grows_of_lifecycle (.inl rfl) h).calls]
    exact ⟨by simp [Writer.spends], by simp [Writer.spends]⟩
  | runtime key =>
    cases h with
    | ingest h =>
      rw [(ingest_grows (S := fun _ => True) h).calls]
      exact ⟨by simp [Writer.spends], by simp [Writer.spends]⟩
  | publisher =>
    cases h with
    | markPublished h =>
      have hcore := congrArg RunCore.calls (markPublished_core h)
      change r'.budgetCalls = r.budgetCalls at hcore
      rw [hcore]
      exact ⟨by simp [Writer.spends], by simp [Writer.spends]⟩
  | bookkeeping =>
    refine ⟨?_, by simp [Writer.spends]⟩
    rw [show Writer.bookkeeping.spends = [] from rfl, List.append_nil]
    cases h with
    | settle h =>
      unfold settle at h
      split at h
      · exact absurd h throw_ne_ok
      · split at h
        · simp only [bind_eq_ok, pure_eq_ok] at h
          obtain ⟨-, -, rfl⟩ := h
          rfl
        · rw [pure_eq_ok] at h
          subst h
          exact settleCall_map_id _ _ _
    | message hf h =>
      have hcore := congrArg RunCore.calls (updateMessage_core (fun m => (hf m).1) h)
      change r'.budgetCalls = r.budgetCalls at hcore
      rw [hcore]

/-- An id that is not taken is no run's. -/
theorem not_mem_callIds {db : Database} {env : Env} {runId : RunId} {id : CallId}
    (h : (db.context env runId).callTaken id = false) : id ∉ db.callIds := by
  intro hmem
  obtain ⟨r, hr, hid⟩ := List.mem_flatMap.mp hmem
  obtain ⟨call, hcall, rfl⟩ := List.mem_map.mp hid
  simp only [Database.context, List.any_eq_false] at h
  exact h r hr (List.any_eq_true.mpr ⟨call, hcall, by simp⟩)

/-- Writing one entry of a list of lists appends to it in its place. -/
theorem flatMap_set_perm {α β : Type*} {f : α → List β} {l : List α} {i : ℕ} {a b : α}
    {added : List β} (hi : l[i]? = some a) (hb : f b = f a ++ added) :
    (l.set i b).flatMap f |>.Perm (added ++ l.flatMap f) := by
  induction l generalizing i with
  | nil => simp at hi
  | cons x l ih =>
    cases i with
    | zero =>
      obtain rfl := Option.some.inj hi
      rw [List.set_cons_zero, List.flatMap_cons, List.flatMap_cons, hb, ← List.append_assoc added]
      exact List.Perm.append_right _ List.perm_append_comm
    | succ i =>
      rw [List.getElem?_cons_succ] at hi
      rw [List.set_cons_succ, List.flatMap_cons, List.flatMap_cons]
      refine (List.Perm.append_left _ (ih hi)).trans ?_
      rw [← List.append_assoc, ← List.append_assoc]
      exact List.Perm.append_right _ List.perm_append_comm

/-- **The ids stay distinct over all runs.** -/
theorem nodup_callIds_step {s : State} (hs : Sound s) (h : s.db.callIds.Nodup) (e : Event) :
    (step s e).db.callIds.Nodup := by
  rcases db_step s e with ⟨db, hc, hdb⟩ | hdb
  · rw [hdb]
    cases hs.dbStep_of_commit hc with
    | @created env r hcreates hruns =>
      have hnone : r.budgetCalls = [] := hcreates.created.1.calls
      have hids : db.callIds = s.db.callIds := by
        unfold Database.callIds
        rw [hruns, List.flatMap_append]
        simp [hnone]
      rw [hids]
      exact h
    | @wrote env id r r' hr hrow hruns =>
      obtain ⟨hids, hfree⟩ := callIds_of_rowStep hrow
      unfold Database.callIds
      rw [hruns]
      refine (flatMap_set_perm hr hids).nodup_iff.mpr (List.nodup_append.mpr ⟨?_, h, ?_⟩)
      · cases e.writer <;> simp [Writer.spends]
      · intro x hx y hy hxy
        subst hxy
        exact not_mem_callIds (hfree x hx) hy
  · rw [hdb]
    exact h

theorem nodup_callIds (es : List Event) : (machine.run es).db.callIds.Nodup := by
  have hboth : Sound (machine.run es) ∧ (machine.run es).db.callIds.Nodup := by
    refine machine.invariant (P := fun s => Sound s ∧ s.db.callIds.Nodup)
      ⟨Sound.init, List.nodup_nil⟩ ?_ (machine.reachable_run es)
    rintro s e ⟨hs, h⟩
    exact ⟨hs.step e, nodup_callIds_step hs h e⟩
  exact hboth.2

/-! ## Repeated settlements -/

/-- A settlement that commits wrote the rows of the run it names. -/
theorem settle_commit {s : State} {env : Env} {runId : RunId} {id : CallId} {used : Option ℕ}
    {db : Database} (h : (Request.settle runId id used).commit? s env = some db) :
    ∃ r r', s.db.runs[runId]? = some r ∧ settle (s.db.context env runId) id used r = .ok r' ∧
      db = { s.db with runs := s.db.runs.set runId r' } := by
  obtain ⟨tx, r, r', hprep, hr, hbody, hdb⟩ := Request.commit_eq_some h
  cases Request.goesTo hprep with
  | settle => exact ⟨r, r', hr, hbody, hdb⟩

/-- What a settlement leaves: the call it names, reported as it says. -/
theorem settle_reported {ctx : Context} {r r' : RunRows} {id : CallId} {used : Option ℕ}
    (h : settle ctx id used r = .ok r') :
    ∃ (i : ℕ) (call : BudgetCall), r'.budgetCalls[i]? = some call ∧ call.id = id ∧
      ((used = none ∧ call.status = .unknown) ∨ (call.used = used ∧ call.status = .settled)) := by
  unfold settle at h
  split at h
  · exact absurd h throw_ne_ok
  · rename_i call hfind
    have hid : call.id = id := by simpa using List.find?_some hfind
    obtain ⟨i, hi⟩ := List.getElem?_of_mem (List.mem_of_find?_eq_some hfind)
    split at h
    · rename_i hsettled
      simp only [bind_eq_ok, require_eq_ok, pure_eq_ok] at h
      obtain ⟨-, hused, rfl⟩ := h
      exact ⟨i, call, hi, hid, .inr ⟨hused, hsettled⟩⟩
    · rw [pure_eq_ok] at h
      subst h
      refine ⟨i, call.settleWith used, ?_, hid, ?_⟩
      · change (settleCall id used r.budgetCalls)[i]? = _
        rw [settleCall_getElem?, hi, Option.map_some, if_pos hid]
      · cases used with
        | none => exact .inl ⟨rfl, rfl⟩
        | some n => exact .inr ⟨rfl, rfl⟩

/-- The ledger has the call, and it is not settled. -/
def RunRows.callOpen (r : RunRows) (id : CallId) : Bool :=
  r.budgetCalls.any fun call => call.id = id ∧ call.status ≠ .settled

/-- The call of an id is open if it is not settled: no other has the id. -/
theorem callOpen_iff {r : RunRows} (hinv : r.core.CallsInv) {call : BudgetCall}
    (hcall : call ∈ r.budgetCalls) : r.callOpen call.id = true ↔ call.status ≠ .settled := by
  unfold RunRows.callOpen
  rw [List.any_eq_true]
  constructor
  · rintro ⟨x, hx, hopen⟩
    obtain ⟨hid, hstatus⟩ := of_decide_eq_true hopen
    obtain rfl := hinv.eq_of_id hx hcall hid
    exact hstatus
  · exact fun hopen => ⟨call, hcall, decide_eq_true ⟨rfl, hopen⟩⟩

/-- An update that reports what an unknown call already says is none. -/
theorem settleCall_unknown {r : RunRows} (hinv : r.core.CallsInv) {call : BudgetCall}
    (hcall : call ∈ r.budgetCalls) (hunknown : call.status = .unknown) :
    settleCall call.id none r.budgetCalls = r.budgetCalls := by
  have hopen : call.status ≠ .settled := by rw [hunknown]; decide
  unfold settleCall
  refine (List.map_congr_left fun x hx => ?_).trans (List.map_id _)
  by_cases hx' : x.id = call.id
  · obtain rfl := hinv.eq_of_id hx hcall hx'
    have hnone := hinv.used_of_open hcall hopen
    rw [if_pos rfl]
    simp [BudgetCall.settleWith, ← hnone, ← hunknown]
  · rw [if_neg hx']
    rfl

/-- **Settling a call again, as it was reported.** A settled call is left
alone; one whose use is unknown keeps every column, and the run's sum is
taken again. -/
theorem settle_again {ctx : Context} {r : RunRows} {used : Option ℕ} (hinv : r.core.CallsInv)
    {call : BudgetCall} (hcall : call ∈ r.budgetCalls)
    (hreported : (used = none ∧ call.status ≠ .reserved) ∨
      (call.used = used ∧ call.status = .settled)) :
    (settle ctx call.id used r).toOption.getD r =
      if used = none ∧ r.callOpen call.id then r.setUsedTokens (charges r.budgetCalls) else r := by
  have hfind : r.budgetCalls.find? (·.id = call.id) = some call := by
    cases hfound : r.budgetCalls.find? (·.id = call.id) with
    | none => exact absurd (List.find?_eq_none.mp hfound call hcall) (by simp)
    | some found =>
      have hid : found.id = call.id := by simpa using List.find?_some hfound
      rw [hinv.eq_of_id (List.mem_of_find?_eq_some hfound) hcall hid]
  unfold settle
  rw [hfind]
  by_cases hsettled : call.status = .settled
  · have hclosed : ¬ (used = none ∧ r.callOpen call.id = true) := fun h =>
      (callOpen_iff hinv hcall).mp h.2 hsettled
    rw [if_neg hclosed]
    dsimp only
    rw [if_pos hsettled]
    unfold require
    split <;> rfl
  · obtain ⟨rfl, hstatus⟩ := hreported.resolve_right fun h => hsettled h.2
    have hunknown : call.status = .unknown := by
      cases hs : call.status with
      | reserved => exact absurd hs hstatus
      | unknown => rfl
      | settled => exact absurd hs hsettled
    dsimp only
    rw [if_neg hsettled, settleCall_unknown hinv hcall hunknown,
      if_pos ⟨rfl, (callOpen_iff hinv hcall).mpr hsettled⟩]
    rfl

/-- **What a settlement does to the runs**: it writes the one it names, if
its transaction succeeds there. -/
theorem runs_of_settle (s : State) (env : Env) (runId : RunId) (id : CallId) (used : Option ℕ)
    {j : RunId} {r : RunRows} (hr : s.db.runs[j]? = some r) :
    (step s (.request env (.settle runId id used))).db.runs[j]? = some (if j = runId then
      (settle (s.db.context env runId) id used r).toOption.getD r else r) := by
  have hcommit : (Event.request env (.settle runId id used)).commit? s =
      (s.db.transact env runId fun ctx => settle ctx id used).toOption := rfl
  unfold step
  rw [hcommit]
  unfold Database.transact
  by_cases hj : j = runId
  · subst hj
    rw [hr, if_pos rfl]
    cases hsettle : settle (s.db.context env j) id used r with
    | error e =>
      simp only [orThrow, bind, Except.bind, hsettle, Except.toOption]
      exact hr
    | ok r' =>
      simp only [orThrow, bind, Except.bind, hsettle, pure, Except.pure, Except.toOption]
      exact List.getElem?_set_self (List.getElem?_eq_some_iff.mp hr).1
  · rw [if_neg hj]
    cases hfound : s.db.runs[runId]? with
    | none => exact hr
    | some x =>
      cases hsettle : settle (s.db.context env runId) id used x with
      | error e =>
        simp only [orThrow, bind, Except.bind, hsettle, Except.toOption]
        exact hr
      | ok x' =>
        simp only [orThrow, bind, Except.bind, hsettle, pure, Except.pure, Except.toOption]
        exact (List.getElem?_set_ne (Ne.symm hj)).trans hr

/-- What a request does to the database. -/
theorem db_of_request (s : State) (env : Env) (req : Request) :
    (∃ db, req.commit? s env = some db ∧ (step s (.request env req)).db = db) ∨
      step s (.request env req) = s := by
  cases hc : req.commit? s env with
  | none => exact .inr (step_of_not_commit hc)
  | some db =>
    refine .inl ⟨db, rfl, ?_⟩
    unfold step
    simp only [Event.commit?, hc]
    rfl

/-- **A settlement that is repeated, however much later, changes no call.**
One with an amount changes nothing at all; one with an unknown use takes the
run's sum as its calls are charged now, unless the call was settled since. -/
theorem repeated_settle (es fs : List Event) {env : Env} (env' : Env) {runId : RunId} {id : CallId}
    {used : Option ℕ}
    (h : ((Request.settle runId id used).commit? (machine.run es) env).isSome) {s : State}
    (hs : s = machine.run (es ++ [.request env (.settle runId id used)] ++ fs)) :
    (used.isSome → (step s (.request env' (.settle runId id used))).db = s.db) ∧
      ∀ (j : RunId) (r : RunRows), s.db.runs[j]? = some r →
        (step s (.request env' (.settle runId id used))).db.runs[j]? =
          some (if j = runId ∧ used = none ∧ r.callOpen id then
            r.setUsedTokens (charges r.budgetCalls) else r) := by
  obtain ⟨db₁, hdb₁⟩ := Option.isSome_iff_exists.mp h
  obtain ⟨r₀, r₁, hr₀, hsettle₁, hdb₁'⟩ := settle_commit hdb₁
  have hr₁ : (machine.run (es ++ [.request env (.settle runId id used)])).db.runs[runId]? =
      some r₁ := by
    rw [machine.run_concat]
    change (step _ _).db.runs[runId]? = _
    rw [runs_of_settle _ _ _ _ _ hr₀, if_pos rfl, hsettle₁]
    rfl
  -- The call as the first settlement left it, and as it is now.
  have hagain : ∀ r, s.db.runs[runId]? = some r →
      (settle (s.db.context env' runId) id used r).toOption.getD r =
        if used = none ∧ r.callOpen id then r.setUsedTokens (charges r.budgetCalls) else r := by
    intro r hr
    obtain ⟨i, call, hi, hid, hreported⟩ := settle_reported hsettle₁
    obtain ⟨call', hi', hid', hsettled, hunknown⟩ := callsLater_of_run _ fs hr₁ (hs ▸ hr) i call hi
    have hnow : (used = none ∧ call'.status ≠ .reserved) ∨
        (call'.used = used ∧ call'.status = .settled) := by
      rcases hreported with ⟨hnone, hstatus⟩ | ⟨hused, hstatus⟩
      · exact .inl ⟨hnone, hunknown hstatus⟩
      · rw [hsettled hstatus]
        exact .inr ⟨hused, hstatus⟩
    obtain rfl := hid'.trans hid
    exact settle_again (callsInv_of_run _ (hs ▸ hr)) (List.mem_of_getElem? hi') hnow
  refine ⟨fun hsome => ?_, fun j r hr => ?_⟩
  · rcases db_of_request s env' (.settle runId id used) with ⟨db, hc, hdb⟩ | hsame
    · obtain ⟨r, r', hr, hsettle, hset⟩ := settle_commit hc
      have hkept := hagain r hr
      have hnone : used ≠ none := Option.isSome_iff_ne_none.mp hsome
      rw [hsettle, if_neg fun hboth => hnone hboth.1] at hkept
      obtain rfl : r' = r := hkept
      have hself : s.db.runs.set runId r' = s.db.runs := by
        obtain ⟨hlt, hget⟩ := List.getElem?_eq_some_iff.mp hr
        rw [← hget, List.set_getElem_self]
      rw [hdb, hset, hself]
    · rw [hsame]
  · rw [runs_of_settle _ _ _ _ _ hr]
    by_cases hj : j = runId
    · subst hj
      rw [if_pos rfl, hagain r hr]
      simp
    · rw [if_neg hj, if_neg fun hboth => hj hboth.1]

/-! ## The result -/

/-- **The ledger of a run is capped by its budget.** In every reachable
state the charges exceed the budget by no more than what settled calls used
beyond their reservations; a settled call is final; no id is reserved
twice; and a settlement that is repeated changes nothing if it carries an
amount, and the run's sum alone, to what the calls are charged, if it does
not. -/
theorem ledger_capped (es : List Event) :
    (∀ (id : RunId) (r : RunRows), (machine.run es).db.runs[id]? = some r →
      charges r.budgetCalls ≤ r.run.budgetTokens + overruns r.budgetCalls ∧
      ((∀ call ∈ r.budgetCalls, ∀ n ∈ call.used, n ≤ call.reserved) →
        charges r.budgetCalls ≤ r.run.budgetTokens)) ∧
    (∀ (fs : List Event) (id : RunId) (r r' : RunRows),
      (machine.run es).db.runs[id]? = some r → (machine.run (es ++ fs)).db.runs[id]? = some r' →
      ∀ (i : ℕ) (call : BudgetCall), r.budgetCalls[i]? = some call → call.status = .settled →
        r'.budgetCalls[i]? = some call) ∧
    (machine.run es).db.callIds.Nodup ∧
    ∀ (fs : List Event) (env env' : Env) (runId : RunId) (id : CallId) (used : Option ℕ) (s : State),
      ((Request.settle runId id used).commit? (machine.run es) env).isSome →
      s = machine.run (es ++ [.request env (.settle runId id used)] ++ fs) →
      (used.isSome → (step s (.request env' (.settle runId id used))).db = s.db) ∧
      ∀ (j : RunId) (r : RunRows), s.db.runs[j]? = some r →
        (step s (.request env' (.settle runId id used))).db.runs[j]? =
          some (if j = runId ∧ used = none ∧ r.callOpen id then
            r.setUsedTokens (charges r.budgetCalls) else r) := by
  refine ⟨fun id r hr => ?_, fun fs id r r' hr hr' i call hi hsettled => ?_, nodup_callIds es,
    fun fs env env' runId id used s h hs => repeated_settle es fs env' h hs⟩
  · have hinv := callsInv_of_run es hr
    have hsum : overruns r.budgetCalls =
        (r.budgetCalls.map (overrun BudgetCall.reserved BudgetCall.used)).sum :=
      overruns_eq hinv.settled_iff
    have hcap : charges r.budgetCalls ≤ r.run.budgetTokens + overruns r.budgetCalls := by
      rw [hsum]
      exact sum_charge_le _ _ hinv.capped
    refine ⟨hcap, fun hwithin => ?_⟩
    have hzero : overruns r.budgetCalls = 0 := by
      rw [hsum]
      exact sum_overrun_eq_zero _ _ hwithin
    rw [hzero] at hcap
    exact hcap
  · obtain ⟨call', hcall', -, hsame, -⟩ := callsLater_of_run es fs hr hr' i call hi
    rw [hsame hsettled] at hcall'
    exact hcall'

/-- A call whose use was reported unknown, and another reserved after it. -/
def unknownRun : List Event := [
  .confirm (envAt 0) (smallConfirm "key") 0,
  claimAt 1000 0 1 1,
  .request (envAt 2000) (.reserve 0 ⟨0, 0⟩ (some 7) 1 100),
  .request (envAt 3000) (.settle 0 1 none),
  .request (envAt 4000) (.reserve 0 ⟨0, 0⟩ (some 7) 2 200)]

/-- Repeating the report does change something: the run's own sum, which was
100 and is 300 after it. -/
theorem repeated_unknown_moves_sum :
    ((Request.settle 0 1 none).commit? (machine.run (unknownRun.take 3)) (envAt 3000)).isSome ∧
      ((machine.run unknownRun).db.runs[0]?).map (·.run.usedTokens) = some 100 ∧
      ((step (machine.run unknownRun) (.request (envAt 5000) (.settle 0 1 none))).db.runs[0]?).map
        (·.run.usedTokens) = some 300 := by
  decide

/-- A run that overran a reservation: charged 1100 of a budget of 1000. -/
def overrunRun : List Event := [
  .confirm (envAt 0) (smallConfirm "key") 0,
  claimAt 1000 0 1 1,
  .request (envAt 2000) (.reserve 0 ⟨0, 0⟩ (some 7) 1 600),
  .request (envAt 2000) (.reserve 0 ⟨0, 0⟩ (some 7) 2 400),
  .request (envAt 3000) (.settle 0 1 (some 700))]

/-- Its charges are the budget and the overrun of 100, and settling the
first call again changes nothing. -/
theorem ledger_capped_of_overrun :
    ∃ r, (machine.run overrunRun).db.runs[0]? = some r ∧
      charges r.budgetCalls = 1100 ∧ overruns r.budgetCalls = 100 ∧
      charges r.budgetCalls ≤ r.run.budgetTokens + overruns r.budgetCalls ∧
      (step (machine.run overrunRun) (.request (envAt 9000) (.settle 0 1 (some 700)))).db =
        (machine.run overrunRun).db := by
  obtain ⟨r, hr⟩ : ∃ r, (machine.run overrunRun).db.runs[0]? = some r := ⟨_, rfl⟩
  have hsums : ((machine.run overrunRun).db.runs[0]?).map (fun r =>
      (charges r.budgetCalls, overruns r.budgetCalls)) = some (1100, 100) := by decide
  rw [hr] at hsums
  obtain ⟨hcharges, hoverruns⟩ := Prod.mk.inj (Option.some.inj hsums)
  have hcap := ((ledger_capped overrunRun).1 0 r hr).1
  have hrepeat := (ledger_capped (overrunRun.take 4)).2.2.2 [] (envAt 3000) (envAt 9000) 0 1
    (some 700) (machine.run overrunRun) (by decide) rfl
  exact ⟨r, hr, hcharges, hoverruns, hcap, hrepeat.1 rfl⟩

end ControlPlane

end AgentReliability
