import AgentReliability.ControlPlane.RunCore
import Mathlib.Data.List.Range
/-!
# The status columns agree

The invariants of one run, over `RunCore.Step`: the three status columns
agree, at most one attempt executes and it is the newest, the attempts
and the commands are numbered without a gap, and a run that waits for a
claim has sent the command of the attempt that comes next.
-/

namespace AgentReliability

namespace ControlPlane

namespace RunCore

variable {c d : RunCore}

/-- The task statuses a run status goes with. -/
def taskOf : RunStatus → List TaskStatus
  | .dispatched => [.queued, .running]
  | .running => [.running]
  | .interrupted => [.needsAttention]
  | .succeeded => [.awaitingApproval]
  | .failed => [.failed]
  | .cancelled => [.cancelled]
  -- The checked transitions pass through these, and no transaction stops there.
  | .pending => []
  | .verifying => []
  | .recovering => []

structure StatusInv (c : RunCore) : Prop where
  /-- The attempts are numbered `1..n` in the order they were created. -/
  numbered : c.attempts.map (·.no) = List.range' 1 c.attempts.length
  /-- An executing attempt is the newest one, of a running run. -/
  executing : ∀ {i no}, c.Executing i no → i + 1 = c.attempts.length ∧ c.status = .running
  running : c.status = .running → ∃ i no, c.Executing i no
  unclaimed : ∀ a ∈ c.attempts, a.status ≠ .claimed
  task : c.task ∈ taskOf c.status
  approvals : c.approvals = if c.status = .succeeded then 1 else 0

structure DispatchInv (c : RunCore) : Prop where
  attempts_le : c.attempts.length ≤ c.maxAttempts
  /-- The commands are numbered `1..m` in the order they were sent. -/
  numbered : c.commands.map (·.attemptNo) = List.range' 1 c.commands.length
  dispatched : c.status = .dispatched →
    c.commands.length = c.attempts.length + 1 ∧ c.commands.length ≤ c.maxAttempts
  started : c.status = .running ∨ c.status = .interrupted →
    c.commands.length = c.attempts.length

/-! ## Numbered rows -/

theorem foldr_max_range' (n : ℕ) : (List.range' 1 n).foldr max 0 = n := by
  induction n with
  | zero => rfl
  | succ n ih =>
    have hfold : ∀ (l : List ℕ) (m : ℕ), (∀ x ∈ l, x ≤ m) → l.foldr max m = m := by
      intro l m hl
      induction l with
      | nil => rfl
      | cons x l ihl =>
        have hx : x ≤ m := hl x List.mem_cons_self
        rw [List.foldr_cons, ihl fun y hy => hl y (List.mem_cons_of_mem _ hy)]
        omega
    rw [List.range'_1_concat, List.foldr_append]
    have hlast : List.foldr max 0 [1 + n] = n + 1 := by simp; omega
    rw [hlast]
    refine hfold _ _ fun x hx => ?_
    have := List.mem_range'_1.mp hx
    omega

theorem StatusInv.latestNo (h : StatusInv c) : c.latestNo = c.attempts.length := by
  rw [RunCore.latestNo, h.numbered, foldr_max_range']

/-- The attempt at position `i` has number `i + 1`. -/
theorem StatusInv.task_running (h : StatusInv c) (hs : c.status = .running) : c.task = .running := by
  have htask := h.task
  rw [hs] at htask
  exact List.mem_singleton.mp htask

theorem StatusInv.no_eq (h : StatusInv c) {i : ℕ} {a : AttemptState} (hi : c.attempts[i]? = some a) :
    a.no = i + 1 := by
  have hlt : i < c.attempts.length := (List.getElem?_eq_some_iff.mp hi).1
  have hmap : (c.attempts.map (·.no))[i]? = some a.no := by rw [List.getElem?_map, hi]; rfl
  rw [h.numbered, List.getElem?_range' hlt] at hmap
  have := Option.some.inj hmap
  omega

/-! ## Ended attempts -/

theorem executing_endAttempt {i no j m : ℕ} {status : AttemptStatus} (hs : status ≠ .running)
    (h : (c.endAttempt i no status).Executing j m) : j ≠ i ∧ c.Executing j m := by
  unfold Executing endAttempt at h
  rw [List.getElem?_set] at h
  split at h
  · split at h
    · exact absurd (congrArg AttemptState.status (Option.some.inj h)) hs
    · exact absurd h (by simp)
  · rename_i hne
    exact ⟨fun hji => hne hji.symm, h⟩

theorem executing_stopAttempts {j m : ℕ} : ¬ c.stopAttempts.Executing j m := by
  intro h
  unfold Executing stopAttempts at h
  rw [List.getElem?_map] at h
  cases ha : c.attempts[j]? with
  | none => simp [ha] at h
  | some a =>
    simp only [ha, Option.map_some, Option.some.injEq] at h
    split at h
    · exact absurd (congrArg AttemptState.status h) (by simp)
    · rename_i hne
      exact hne (congrArg AttemptState.status h)

/-- The end of an attempt keeps its number. -/
theorem endAttempt_map_no {i no : ℕ} {status s : AttemptStatus}
    (hi : c.attempts[i]? = some ⟨no, s⟩) :
    (c.endAttempt i no status).attempts.map (·.no) = c.attempts.map (·.no) := by
  have hset : (c.attempts.map (·.no)).set i no = c.attempts.map (·.no) := by
    refine List.ext_getElem? fun j => ?_
    rw [List.getElem?_set]
    split
    · rename_i hij
      subst hij
      have hlt : i < (c.attempts.map (·.no)).length := by
        rw [List.length_map]; exact (List.getElem?_eq_some_iff.mp hi).1
      rw [if_pos hlt, List.getElem?_map, hi]
      rfl
    · rfl
  unfold endAttempt
  rw [List.map_set]
  exact hset

theorem stopAttempts_map_no : c.stopAttempts.attempts.map (·.no) = c.attempts.map (·.no) := by
  unfold stopAttempts
  rw [List.map_map]
  refine List.map_congr_left fun a _ => ?_
  simp only [Function.comp_apply]
  split <;> rfl

theorem FailedAs.ne_running {status : AttemptStatus} (h : FailedAs status) : status ≠ .running := by
  rcases h with rfl | rfl <;> decide

theorem FailedAs.ne_claimed {status : AttemptStatus} (h : FailedAs status) : status ≠ .claimed := by
  rcases h with rfl | rfl <;> decide

/-- **Ending the executing attempt leaves none.** So the run may take any
status but `RUNNING` that goes with its task. -/
theorem StatusInv.end_executing (h : StatusInv c) {i no : ℕ} {status : AttemptStatus}
    (hi : c.Executing i no) (hs : status ≠ .running) {j m : ℕ} :
    ¬ (c.endAttempt i no status).Executing j m := by
  intro hj
  obtain ⟨hne, hj⟩ := executing_endAttempt hs hj
  have h₁ := (h.executing hi).1
  have h₂ := (h.executing hj).1
  omega

theorem StatusInv.end_unclaimed (h : StatusInv c) {i no : ℕ} {status : AttemptStatus}
    (hs : status ≠ .claimed) : ∀ a ∈ (c.endAttempt i no status).attempts, a.status ≠ .claimed := by
  intro a ha
  unfold endAttempt at ha
  rcases List.mem_or_eq_of_mem_set ha with ha | rfl
  · exact h.unclaimed a ha
  · exact hs

/-- What a run without an executing attempt has to show. -/
theorem StatusInv.of_idle (hno : ∀ {j m}, ¬ d.Executing j m) (hrun : d.status ≠ .running)
    (hnum : d.attempts.map (·.no) = List.range' 1 d.attempts.length)
    (hun : ∀ a ∈ d.attempts, a.status ≠ .claimed) (htask : d.task ∈ taskOf d.status)
    (happ : d.approvals = if d.status = .succeeded then 1 else 0) : StatusInv d where
  numbered := hnum
  executing := fun hi => absurd hi hno
  running := fun hr => absurd hr hrun
  unclaimed := hun
  task := htask
  approvals := happ

theorem StatusInv.approvals_eq_zero (h : StatusInv c) (hs : c.status ≠ .succeeded) :
    c.approvals = 0 := by
  rw [h.approvals, if_neg hs]

/-! ## The invariants survive every step -/

/-- An attempt that fails, or is paused, takes the run to a status it has
no executing attempt in. -/
theorem StatusInv.of_endAttempt (h : StatusInv c) {i no usedTokens : ℕ} {ended : AttemptStatus}
    (hi : c.Executing i no) (hrun : ended ≠ .running) (hclaimed : ended ≠ .claimed)
    {status : RunStatus} {task : TaskStatus} {commands : List RunCommand}
    {decisions : List (ℕ × PolicyAction)} {approvals : ℕ} (hstatus : status ≠ .running)
    (htask : task ∈ taskOf status) (happ : approvals = if status = .succeeded then 1 else 0) :
    StatusInv { c.endAttempt i no ended with
      status, task, commands, decisions, approvals, usedTokens } := by
  refine StatusInv.of_idle (fun {j m} => ?_) hstatus ?_ ?_ htask happ
  · exact h.end_executing hi hrun
  · have hlen : (c.endAttempt i no ended).attempts.length = c.attempts.length := by
      simp [endAttempt]
    have hmap : (c.endAttempt i no ended).attempts.map (·.no) = List.range' 1 c.attempts.length :=
      (endAttempt_map_no hi).trans h.numbered
    rw [← hlen] at hmap
    exact hmap
  · exact h.end_unclaimed hclaimed

/-- **Every step keeps the status columns in agreement.** -/
theorem StatusInv.step (h : StatusInv c) (hs : Step c d) : StatusInv d := by
  cases hs with
  | stay => exact h
  | @claim no hstatus hno hmax =>
    have hidle : ∀ {j m}, ¬ c.Executing j m := fun hj => by
      have := (h.executing hj).2
      rw [hstatus] at this
      exact absurd this (by decide)
    have hnext : no = c.attempts.length + 1 := by rw [hno, h.latestNo]
    refine ⟨?_, fun {i m} hi => ?_, fun _ => ⟨c.attempts.length, no, ?_⟩, fun a ha => ?_, ?_, ?_⟩
    · rw [List.map_append, h.numbered, List.length_append, List.length_singleton,
        List.range'_1_concat, hnext, Nat.add_comm 1]
      rfl
    · refine ⟨?_, rfl⟩
      rw [Executing, List.getElem?_append] at hi
      rw [List.length_append, List.length_singleton]
      split at hi
      · exact absurd hi hidle
      · have hlt := (List.getElem?_eq_some_iff.mp hi).1
        simp only [List.length_singleton] at hlt
        omega
    · simp [Executing]
    · rcases List.mem_append.mp ha with ha | ha
      · exact h.unclaimed a ha
      · rw [List.mem_singleton.mp ha]; simp
    · have htask := h.task
      rw [hstatus] at htask
      simp only [taskOf, List.mem_cons, List.not_mem_nil, or_false] at htask ⊢
      rcases htask with ht | ht <;> simp [ht]
    · exact h.approvals_eq_zero (by rw [hstatus]; decide)
  | @succeed i no usedTokens hi hstatus htask hledger =>
    have happ : c.approvals = 0 := h.approvals_eq_zero (by rw [hstatus]; decide)
    exact h.of_endAttempt hi (by decide) (by decide) (by decide) (by simp [taskOf]) (by simp [happ])
  | @park i no usedTokens ended decisions hi hstatus hended hused hdecisions =>
    exact h.of_endAttempt hi hended.ne_running hended.ne_claimed (by decide) (by simp [taskOf])
      (h.approvals_eq_zero (by rw [hstatus]; decide))
  | @redispatch i no usedTokens ended action command hi hstatus hended =>
    have htask := h.task
    rw [hstatus] at htask
    exact h.of_endAttempt hi hended.ne_running hended.ne_claimed (by decide)
      (List.mem_cons_of_mem _ htask) (h.approvals_eq_zero (by rw [hstatus]; decide))
  | @abort i no usedTokens ended hi hstatus hended =>
    exact h.of_endAttempt hi hended.ne_running hended.ne_claimed (by decide) (by simp [taskOf])
      (h.approvals_eq_zero (by rw [hstatus]; decide))
  | cancel hstatus =>
    refine StatusInv.of_idle (fun {j m} => executing_stopAttempts) (by simp) ?_ (fun a ha => ?_)
      (by simp [taskOf]) ?_
    · have hlen : c.stopAttempts.attempts.length = c.attempts.length := by simp [stopAttempts]
      have hmap := (stopAttempts_map_no (c := c)).trans h.numbered
      rw [← hlen] at hmap
      exact hmap
    · obtain ⟨b, hb, rfl⟩ := List.mem_map.mp ha
      split
      · simp
      · exact h.unclaimed b hb
    · exact h.approvals_eq_zero fun he => hstatus (by rw [he]; decide)
  | resume hstatus =>
    refine StatusInv.of_idle (fun {j m} hj => ?_) (by simp) h.numbered h.unclaimed
      (by simp [taskOf]) (h.approvals_eq_zero (by rw [hstatus]; decide))
    have := (h.executing hj).2
    rw [hstatus] at this
    exact absurd this (by decide)
  | checkpoint => exact ⟨h.numbered, h.executing, h.running, h.unclaimed, h.task, h.approvals⟩
  | reserve => exact ⟨h.numbered, h.executing, h.running, h.unclaimed, h.task, h.approvals⟩
  | settle => exact ⟨h.numbered, h.executing, h.running, h.unclaimed, h.task, h.approvals⟩

/-- An ended attempt leaves the numbers of the attempts and the commands
as they are. -/
theorem DispatchInv.of_status (h : DispatchInv c) (hlen : d.attempts.length = c.attempts.length)
    (hmax : d.maxAttempts = c.maxAttempts) (hcmd : d.commands = c.commands)
    (hdis : d.status ≠ .dispatched)
    (hstarted : d.status = .running ∨ d.status = .interrupted →
      c.status = .running ∨ c.status = .interrupted) : DispatchInv d where
  attempts_le := by rw [hlen, hmax]; exact h.attempts_le
  numbered := by rw [hcmd]; exact h.numbered
  dispatched := fun hd => absurd hd hdis
  started := fun hs => by rw [hcmd, hlen]; exact h.started (hstarted hs)

/-- A command that carries the number after the last attempt's keeps the
commands numbered, and the run waits for exactly that attempt. -/
theorem DispatchInv.of_send (h : DispatchInv c)
    (hstarted : c.status = .running ∨ c.status = .interrupted) {command : RunCommand}
    (hno : command.attemptNo = c.attempts.length + 1) (hmax : c.attempts.length < c.maxAttempts)
    (hlen : d.attempts.length = c.attempts.length) (hmaxeq : d.maxAttempts = c.maxAttempts)
    (hcmd : d.commands = c.commands ++ [command]) (hdis : d.status = .dispatched) :
    DispatchInv d where
  attempts_le := by rw [hlen, hmaxeq]; exact h.attempts_le
  numbered := by
    rw [hcmd, List.map_append, h.numbered, List.length_append, List.length_singleton,
      List.range'_1_concat, h.started hstarted, Nat.add_comm 1]
    simp [hno]
  dispatched := fun _ => by
    have := h.started hstarted
    rw [hcmd, hlen, hmaxeq, List.length_append, List.length_singleton]
    omega
  started := fun hs => by
    rw [hdis] at hs
    exact absurd hs (by decide)

/-- **Every step keeps the numbering.** -/
theorem DispatchInv.step (h : DispatchInv c) (hinv : StatusInv c) (hs : Step c d) :
    DispatchInv d := by
  have hend : ∀ i no status, (c.endAttempt i no status).attempts.length = c.attempts.length :=
    fun i no status => List.length_set
  cases hs with
  | stay => exact h
  | @claim no hstatus hno hmax =>
    obtain ⟨hlen, hle⟩ := h.dispatched hstatus
    have hcount : ∀ {x : AttemptState}, (c.attempts ++ [x]).length = c.attempts.length + 1 := by
      simp
    refine ⟨?_, h.numbered, fun hd => absurd hd (by simp), fun _ => ?_⟩
    · change (c.attempts ++ [_]).length ≤ c.maxAttempts
      rw [hcount]
      omega
    · change c.commands.length = (c.attempts ++ [_]).length
      rw [hcount]
      exact hlen
  | @succeed i no =>
    exact h.of_status (hend i no _) rfl rfl (by simp) (by simp)
  | @park i no _ _ _ hi hstatus =>
    exact h.of_status (hend i no _) rfl rfl (by simp) (fun _ => .inl hstatus)
  | @redispatch i no usedTokens ended action command hi hstatus hended haction hmax hledger hno =>
    have hlast := (hinv.executing hi).1
    have hnum : no = i + 1 := hinv.no_eq hi
    exact h.of_send (.inl hstatus) (by omega) (by omega) (hend i no _) rfl rfl rfl
  | @abort i no =>
    exact h.of_status (hend i no _) rfl rfl (by simp) (by simp)
  | cancel hstatus =>
    exact h.of_status (by simp [stopAttempts]) rfl rfl (by simp) (by simp)
  | resume hstatus hsnapshot hmax hsettled hno =>
    exact h.of_send (.inr hstatus) (by rw [hno, hinv.latestNo]) hmax rfl rfl rfl rfl
  | checkpoint => exact ⟨h.attempts_le, h.numbered, h.dispatched, h.started⟩
  | reserve => exact ⟨h.attempts_le, h.numbered, h.dispatched, h.started⟩
  | settle => exact ⟨h.attempts_le, h.numbered, h.dispatched, h.started⟩

/-! ## What never goes back -/

/-- **What a later state keeps of an earlier one.** The inputs are frozen,
an attempt keeps its position and its number, and one that executes now
executed before. -/
structure Later (c d : RunCore) : Prop where
  snapshot : d.snapshot = c.snapshot
  maxAttempts : d.maxAttempts = c.maxAttempts
  budgetTokens : d.budgetTokens = c.budgetTokens
  budgetSeconds : d.budgetSeconds = c.budgetSeconds
  length_le : c.attempts.length ≤ d.attempts.length
  no_eq : ∀ {i : ℕ} {a b : AttemptState}, c.attempts[i]? = some a → d.attempts[i]? = some b →
    b.no = a.no
  executing : ∀ {i no : ℕ}, i < c.attempts.length → d.Executing i no → c.Executing i no

theorem Later.refl (c : RunCore) : Later c c where
  snapshot := rfl
  maxAttempts := rfl
  budgetTokens := rfl
  budgetSeconds := rfl
  length_le := le_rfl
  no_eq := fun ha hb => by rw [ha] at hb; rw [Option.some.inj hb]
  executing := fun _ h => h

theorem Later.trans {e : RunCore} (h₁ : Later c d) (h₂ : Later d e) : Later c e where
  snapshot := h₂.snapshot.trans h₁.snapshot
  maxAttempts := h₂.maxAttempts.trans h₁.maxAttempts
  budgetTokens := h₂.budgetTokens.trans h₁.budgetTokens
  budgetSeconds := h₂.budgetSeconds.trans h₁.budgetSeconds
  length_le := h₁.length_le.trans h₂.length_le
  no_eq := fun {i a b} ha hb => by
    have hlt : i < d.attempts.length :=
      (List.getElem?_eq_some_iff.mp ha).1.trans_le h₁.length_le
    have hd := List.getElem?_eq_getElem hlt
    exact (h₂.no_eq hd hb).trans (h₁.no_eq ha hd)
  executing := fun hi h => h₁.executing hi (h₂.executing (hi.trans_le h₁.length_le) h)

/-- Steps that rewrite attempts in place without starting one. -/
theorem Later.of_ended (hsnap : d.snapshot = c.snapshot)
    (hmax : d.maxAttempts = c.maxAttempts) (hbud : d.budgetTokens = c.budgetTokens)
    (hsec : d.budgetSeconds = c.budgetSeconds)
    (hlen : d.attempts.length = c.attempts.length)
    (hat : ∀ {i : ℕ} {b : AttemptState}, d.attempts[i]? = some b → ∃ a, c.attempts[i]? = some a ∧
      b.no = a.no ∧ (b.status = .running → b = a)) : Later c d where
  snapshot := hsnap
  maxAttempts := hmax
  budgetTokens := hbud
  budgetSeconds := hsec
  length_le := hlen.ge
  no_eq := fun ha hb => by
    obtain ⟨a', ha', hno, -⟩ := hat hb
    rw [ha] at ha'
    rw [hno, Option.some.inj ha']
  executing := fun _ h => by
    obtain ⟨a, ha, -, heq⟩ := hat h
    rw [Executing, ha, heq rfl]

/-- The end of one attempt. -/
theorem Later.of_endAttempt {i no : ℕ} {ended : AttemptStatus} (hi : c.Executing i no)
    (hended : ended ≠ .running) {status : RunStatus} {task : TaskStatus}
    {commands : List RunCommand} {decisions : List (ℕ × PolicyAction)}
    {approvals usedTokens : ℕ} :
    Later c { c.endAttempt i no ended with
      status, task, commands, decisions, approvals, usedTokens } := by
  refine Later.of_ended rfl rfl rfl rfl List.length_set fun {j b} hb => ?_
  change (c.attempts.set i ⟨no, ended⟩)[j]? = some b at hb
  rw [List.getElem?_set] at hb
  split at hb
  · rename_i hij
    subst hij
    split at hb
    · rw [← Option.some.inj hb]
      exact ⟨⟨no, .running⟩, hi, rfl, fun hr => absurd hr hended⟩
    · exact absurd hb (by simp)
  · exact ⟨b, hb, rfl, fun _ => rfl⟩

/-- **A step never brings an attempt back.** -/
theorem Later.of_step (hs : Step c d) : Later c d := by
  cases hs with
  | stay => exact Later.refl c
  | @claim no =>
    have hkeep : ∀ {i : ℕ}, i < c.attempts.length →
        (c.attempts ++ [(⟨no, .running⟩ : AttemptState)])[i]? = c.attempts[i]? :=
      fun hi => List.getElem?_append_left hi
    refine ⟨rfl, rfl, rfl, rfl, by simp, fun {i a b} ha hb => ?_, fun {i m} hi h => ?_⟩
    · rw [hkeep (List.getElem?_eq_some_iff.mp ha).1, ha] at hb
      rw [Option.some.inj hb]
    · rw [Executing, hkeep hi] at h
      exact h
  | succeed hi => exact Later.of_endAttempt hi (by decide)
  | park hi _ hended => exact Later.of_endAttempt hi hended.ne_running
  | redispatch hi _ hended => exact Later.of_endAttempt hi hended.ne_running
  | abort hi _ hended => exact Later.of_endAttempt hi hended.ne_running
  | cancel =>
    refine Later.of_ended rfl rfl rfl rfl (by simp [stopAttempts]) fun {i b} hb => ?_
    change (c.attempts.map _)[i]? = some b at hb
    rw [List.getElem?_map] at hb
    obtain ⟨a, ha, rfl⟩ := Option.map_eq_some_iff.mp hb
    refine ⟨a, ha, ?_, fun hr => ?_⟩
    · split <;> rfl
    · split at hr
      · exact absurd hr (by simp)
      · rename_i hne
        exact absurd hr hne
  | resume => exact ⟨rfl, rfl, rfl, rfl, le_rfl, (Later.refl c).no_eq, fun _ h => h⟩
  | checkpoint => exact ⟨rfl, rfl, rfl, rfl, le_rfl, (Later.refl c).no_eq, fun _ h => h⟩
  | reserve => exact ⟨rfl, rfl, rfl, rfl, le_rfl, (Later.refl c).no_eq, fun _ h => h⟩
  | settle => exact ⟨rfl, rfl, rfl, rfl, le_rfl, (Later.refl c).no_eq, fun _ h => h⟩

/-- Frozen budgets stay frozen. -/
theorem Later.budgetFrozen (h : Later c d) (hc : c.BudgetFrozen) : d.BudgetFrozen := by
  intro snapshot hs
  rw [h.snapshot] at hs
  rw [h.budgetTokens, h.budgetSeconds]
  exact hc snapshot hs

end RunCore

end ControlPlane

end AgentReliability
