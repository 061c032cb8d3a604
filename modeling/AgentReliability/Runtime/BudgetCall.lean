import AgentReliability.Common.Program
import AgentReliability.ControlPlane.Ledger
/-!
# A budgeted model call

`budget_call` of the runtime reserves tokens, calls the provider, reads the
usage it reports and settles the reservation. Each of the four may raise,
and a request may take effect on the server after its caller has given up
on it.

The function is one program; the executions of it, by the agent, the
condenser and the judge of any attempt, run beside each other and beside
the control plane that answers them.
-/

namespace AgentReliability

namespace Runtime

open ControlPlane

/-! ## The function -/

/-- What a call may raise. Only a subclass of `Exception` is caught by
`except Exception`. -/
inductive PyException where
  | usageUnknown (message : String)
  /-- Any other subclass of `Exception`. -/
  | exception (name : String)
  /-- `KeyboardInterrupt`, `SystemExit` and the like. -/
  | baseException (name : String)
  deriving DecidableEq, Repr

def PyException.isException : PyException → Bool
  | baseException _ => false
  | _ => true

/-- The usage metadata of a response: each key with the result of `int` on
its value, if it is there. -/
structure UsageMetadata where
  inputTokens : Option (Except PyException ℤ)
  outputTokens : Option (Except PyException ℤ)

/-- A response of the provider, with what reading its usage gives. -/
structure ModelResponse where
  content : String
  usage : Except PyException (Option UsageMetadata)

inductive CallEffect where
  | reserve (reserved : ℕ)
  /-- The call of the provider. -/
  | invoke
  | settle (used : Option ℕ)
  deriving DecidableEq, Repr

@[reducible] def CallEffect.Answer : CallEffect → Type
  | invoke => ModelResponse
  | _ => Unit

abbrev CallProgram := Program CallEffect CallEffect.Answer PyException

/-- `budget_call`, lines 46–51: the tokens the response reports. -/
def readUsage (result : ModelResponse) : Except PyException ℕ := do
  let missing := PyException.usageUnknown
    "Model response did not provide usage; reservation retained"
  match ← result.usage with
  | some { inputTokens := some input, outputTokens := some output } => do
    let used := (← input) + (← output)
    if used < 0 then throw (.usageUnknown "Invalid model usage") else pure used.toNat
  | _ => throw missing

/-- An `except Exception` block. -/
def exceptException {α : Type} (body handler : CallProgram α) : CallProgram α :=
  body.tryExcept fun e => if e.isException then handler else .raise e

/-- `budget_call`, for a snapshot run. The timeout it hands to the provider
is left out: a call may take any time and fail at any. -/
def budgetCall (inputLimit outputLimit : ℤ) : CallProgram ModelResponse := do
  if inputLimit ≤ 0 ∨ outputLimit ≤ 0 then
    .raise (.usageUnknown
      "Configure the provider-enforced context/output limits before strict-budget execution")
  else
    let _ ← Program.call (CallEffect.reserve (inputLimit + outputLimit).toNat)
    let failed := PyException.usageUnknown "Model call failed; usage reservation retained"
    let (result, used) ← exceptException
      (do
        let result ← Program.call CallEffect.invoke
        let used ← Program.ofExcept (readUsage result)
        pure (result, used))
      (do
        -- The `finally` block raises, whatever the settlement does.
        let _ ← Program.tryFinally (Program.call (CallEffect.settle none)) (.raise failed)
        .raise failed)
    exceptException
      (do
        let _ ← Program.call (CallEffect.settle (some used))
        pure ())
      (.raise (.usageUnknown "Model usage could not be settled; reservation retained"))
    if inputLimit + outputLimit < used then
      .raise (.usageUnknown "Provider exceeded declared token bounds; strict execution stopped")
    else pure result

/-- `Condenser.__call__` on a key that is not cached, lines 68–93: what it
makes of the outcome of its model call. Reading the summary out of the
response may raise as well. -/
def condense (summarize : ModelResponse → Except PyException String) (placeholder : String)
    (call : Except PyException ModelResponse) : Except PyException String :=
  match call.bind summarize with
  | .ok summary => .ok summary
  | .error (.usageUnknown message) => .error (.usageUnknown message)
  | .error e => if e.isException then .ok placeholder else .error e

/-- `judge_run`, lines 70–106: `none` is no report, and no veto. -/
def judge {Report : Type} (parse : ModelResponse → Except PyException Report)
    (call : Except PyException ModelResponse) : Except PyException (Option Report) :=
  match call.bind parse with
  | .ok report => .ok (some report)
  | .error (.usageUnknown message) => .error (.usageUnknown message)
  | .error e => if e.isException then .ok none else .error e

/-! ### Its continuations -/

/-- After the settlement of a call whose usage is known. -/
def afterSettle (limit : ℤ) (result : ModelResponse) (used : ℕ) :
    Except PyException Unit → CallProgram ModelResponse
  | .error e =>
    .raise (if e.isException then
      .usageUnknown "Model usage could not be settled; reservation retained" else e)
  | .ok _ =>
    if limit < used then
      .raise (.usageUnknown "Provider exceeded declared token bounds; strict execution stopped")
    else .ret result

/-- After the settlement of a call that failed. -/
def afterFailure : Except PyException Unit → CallProgram ModelResponse :=
  fun _ => .raise (.usageUnknown "Model call failed; usage reservation retained")

/-- The end of a call whose provider, or whose metadata, raised. -/
def giveUp (e : PyException) : CallProgram ModelResponse :=
  if e.isException then .perform (.settle none) afterFailure else .raise e

/-- After the answer of the provider. -/
def afterInvoke (limit : ℤ) : Except PyException ModelResponse → CallProgram ModelResponse
  | .error e => giveUp e
  | .ok result =>
    match readUsage result with
    | .error e => giveUp e
    | .ok used => .perform (.settle (some used)) (afterSettle limit result used)

/-- After the answer to the reservation. -/
def afterReserve (limit : ℤ) : Except PyException Unit → CallProgram ModelResponse
  | .error e => .raise e
  | .ok _ => .perform .invoke (afterInvoke limit)

/-- The handler of the first `try`, for an exception of its body. -/
theorem handled_eq {α : Type} (e : PyException) (k : α → CallProgram ModelResponse) :
    ((if e.isException then
        (do
          let _ ← Program.tryFinally (Program.call (CallEffect.settle none))
            (.raise (.usageUnknown "Model call failed; usage reservation retained"))
          .raise (.usageUnknown "Model call failed; usage reservation retained"))
      else .raise e : CallProgram α).bind k) = giveUp e := by
  unfold giveUp
  cases e.isException with
  | false => rfl
  | true =>
    refine congrArg (Program.perform _) (funext fun answer => ?_)
    cases answer <;> rfl

/-- The second `try` and what follows it. -/
theorem settled_eq (limit : ℤ) (result : ModelResponse) (used : ℕ) :
    ((exceptException
      (do
        let _ ← Program.call (CallEffect.settle (some used))
        pure ())
      (.raise (.usageUnknown "Model usage could not be settled; reservation retained"))).bind
      fun _ =>
        if limit < used then
          .raise (.usageUnknown "Provider exceeded declared token bounds; strict execution stopped")
        else pure result) = .perform (.settle (some used)) (afterSettle limit result used) := by
  refine congrArg (Program.perform _) (funext fun answer => ?_)
  cases answer with
  | ok _ => rfl
  | error e => cases e <;> rfl

/-- **The function, effect by effect.** -/
theorem budgetCall_eq {inputLimit outputLimit : ℤ} (h : ¬ (inputLimit ≤ 0 ∨ outputLimit ≤ 0)) :
    budgetCall inputLimit outputLimit =
      .perform (.reserve (inputLimit + outputLimit).toNat)
        (afterReserve (inputLimit + outputLimit)) := by
  unfold budgetCall
  rw [if_neg h]
  refine congrArg (Program.perform _) (funext fun answer => ?_)
  cases answer with
  | error e => rfl
  | ok _ =>
    refine congrArg (Program.perform _) (funext fun answer => ?_)
    cases answer with
    | error e => exact handled_eq e _
    | ok result =>
      unfold afterInvoke
      -- Both sides look at nothing of the response but what reading its usage gives.
      change ((((Program.ofExcept (readUsage result)).bind fun used =>
        Program.ret (result, used)).tryExcept _).bind _) = _
      simp only
      generalize readUsage result = read
      cases read with
      | error e => exact handled_eq e _
      | ok used => exact settled_eq (inputLimit + outputLimit) result used

/-! ## The executions, beside the control plane -/

/-- `BudgetContext`, and the lease token the client holds for the attempt. -/
structure BudgetContext where
  runId : RunId
  attemptId : AttemptId
  token : Option LeaseToken
  inputLimit : ℤ
  outputLimit : ℤ

/-- `input_limit + output_limit`. -/
def BudgetContext.limit (budget : BudgetContext) : ℤ := budget.inputLimit + budget.outputLimit

/-- The tokens a call reserves. -/
def BudgetContext.amount (budget : BudgetContext) : ℕ := budget.limit.toNat

/-- A request that was sent, and whether the server has committed it. -/
structure CallMessage where
  request : CallEffect
  committed : Option Bool := none
  deriving DecidableEq

/-- One execution of `budget_call`. -/
structure Execution where
  budget : BudgetContext
  requestId : CallId
  program : CallProgram ModelResponse
  /-- The effect the program waits on was sent. -/
  waiting : Bool := false
  messages : List CallMessage := []
  /-- The tokens the provider really uses, once it is called. -/
  truth : Option ℕ := none
  /-- The tokens its response reports, where they can be read. -/
  reported : Option ℕ := none

namespace Execution

variable (x : Execution)

/-- The HTTP request of an effect. -/
def request : CallEffect → Option Request
  | .reserve reserved =>
    some (.reserve x.budget.runId x.budget.attemptId x.budget.token x.requestId reserved)
  | .settle used => some (.settle x.budget.runId x.requestId used)
  | .invoke => none

/-- Goes on with the answer to an HTTP request. -/
def resume (answer : Except PyException Unit) : Execution :=
  match x.program with
  | .perform (.reserve _) k => { x with program := k answer, waiting := false }
  | .perform (.settle _) k => { x with program := k answer, waiting := false }
  | _ => x

/-- Sends the request the program waits on. -/
def send : Execution :=
  match x.program.effect? with
  | none => x
  | some effect =>
    if x.waiting ∨ (x.request effect).isNone then x
    else { x with waiting := true, messages := x.messages ++ [{ request := effect }] }

/-- The response to the request arrives: `raise_for_status` raises for
anything but a success. -/
def deliver : Execution :=
  match x.waiting, x.messages.getLast?.bind (·.committed) with
  | true, some true => x.resume (.ok ())
  | true, some false => x.resume (.error (.exception "HTTPStatusError"))
  | _, _ => x

/-- The provider is called. -/
def invoke (truth : ℕ) : Execution :=
  match x.program, x.truth with
  | .perform .invoke _, none => { x with truth := some truth }
  | _, _ => x

/-- The call of the provider returns or raises. -/
def answer (outcome : Except PyException ModelResponse) : Execution :=
  match x.program, x.truth with
  | .perform .invoke k, some _ =>
    { x with program := k outcome, reported := (outcome.bind readUsage).toOption }
  | _, _ => x

/-- The tokens the execution has made the provider use. -/
def spent : ℕ := x.truth.getD 0

end Execution

structure RuntimeState where
  plane : State := {}
  executions : List Execution := []

inductive RuntimeEvent where
  | plane (e : Event)
  | start (budget : BudgetContext) (requestId : CallId)
  | send (i : ℕ)
  /-- The server takes a request that was sent, whether its caller still
  waits for it or not. -/
  | serve (i j : ℕ) (env : Env)
  | deliver (i : ℕ)
  /-- The client gives up on a request: it failed, timed out, or was never
  sent. -/
  | fail (i : ℕ) (e : PyException)
  | invoke (i truth : ℕ)
  | answer (i : ℕ) (outcome : Except PyException ModelResponse)

/-- The event is a request to the ledger. -/
def Event.spends : Event → Bool
  | .request _ (.reserve ..) => true
  | .request _ (.settle ..) => true
  | _ => false

/-- One event. The requests to the ledger are those of the executions. -/
def runtimeStep (s : RuntimeState) : RuntimeEvent → RuntimeState
  | .plane e => if Event.spends e then s else { s with plane := step s.plane e }
  | .start budget requestId =>
    { s with executions := s.executions ++ [{
        budget, requestId, program := budgetCall budget.inputLimit budget.outputLimit }] }
  | .send i => { s with executions := s.executions.modify i (·.send) }
  | .serve i j env =>
    match s.executions[i]? with
    | none => s
    | some x =>
      match x.messages[j]? with
      | some { request := effect, committed := none } =>
        match x.request effect with
        | none => s
        | some req => {
            plane := step s.plane (.request env req)
            executions := s.executions.set i { x with
              messages := x.messages.set j
                { request := effect, committed := some (req.commit? s.plane env).isSome } } }
      | _ => s
  | .deliver i => { s with executions := s.executions.modify i (·.deliver) }
  | .fail i e => { s with executions := s.executions.modify i (·.resume (.error e)) }
  | .invoke i truth => { s with executions := s.executions.modify i (·.invoke truth) }
  | .answer i outcome => { s with executions := s.executions.modify i (·.answer outcome) }

/-- The runtimes of all attempts, beside the control plane. -/
def runtimeMachine : Machine RuntimeState RuntimeEvent where
  init := {}
  step := runtimeStep

/-! ## What one execution has done -/

/-- A settlement the program may ask for, with what it does afterwards: of
the tokens the response reports, or of none. -/
inductive Settles (limit : ℤ) : Option ℕ → (Except PyException Unit → CallProgram ModelResponse) →
    Option ℕ → Prop
  | unknown (reported : Option ℕ) : Settles limit none afterFailure reported
  | known {result : ModelResponse} {used : ℕ} (h : readUsage result = .ok used) :
      Settles limit (some used) (afterSettle limit result used) (some used)

/-- The messages of an execution whose reservation was committed. -/
def granted (amount : ℕ) : CallMessage := { request := .reserve amount, committed := some true }

/-- **What an execution has done so far**: where its program stands, what it
has sent, whether the provider was called and what it reported. -/
inductive Stage (amount : ℕ) (limit : ℤ) :
    CallProgram ModelResponse → Bool → List CallMessage → Option ℕ → Option ℕ → Prop
  | toReserve : Stage amount limit (.perform (.reserve amount) (afterReserve limit)) false [] none none
  | reserving (committed : Option Bool) :
      Stage amount limit (.perform (.reserve amount) (afterReserve limit)) true
        [{ request := .reserve amount, committed }] none none
  /-- Nothing was reserved, or the caller does not know of it. -/
  | refused {messages : List CallMessage} (e : PyException)
      (h : messages = [] ∨ ∃ committed, messages = [{ request := .reserve amount, committed }]) :
      Stage amount limit (.raise e) false messages none none
  | toInvoke (truth : Option ℕ) :
      Stage amount limit (.perform .invoke (afterInvoke limit)) false [granted amount] truth none
  | toSettle {used reported : Option ℕ} {k : Except PyException Unit → CallProgram ModelResponse}
      (truth : ℕ) (h : Settles limit used k reported) :
      Stage amount limit (.perform (.settle used) k) false [granted amount] (some truth) reported
  | settling {used reported : Option ℕ} {k : Except PyException Unit → CallProgram ModelResponse}
      (truth : ℕ) (committed : Option Bool) (h : Settles limit used k reported) :
      Stage amount limit (.perform (.settle used) k) true
        [granted amount, { request := .settle used, committed }] (some truth) reported
  | returned {result : ModelResponse} {used : ℕ} (truth : ℕ) (h : readUsage result = .ok used)
      (hlimit : used ≤ limit) :
      Stage amount limit (.ret result) false
        [granted amount, { request := .settle (some used), committed := some true }] (some truth)
        (some used)
  | raised {messages : List CallMessage} {reported : Option ℕ} {e : PyException} (truth : ℕ)
      (he : e.isException → ∃ message, e = .usageUnknown message)
      (h : messages = [granted amount] ∨ ∃ used committed,
        messages = [granted amount, { request := .settle used, committed }] ∧
          ∀ v ∈ used, reported = some v) :
      Stage amount limit (.raise e) false messages (some truth) reported

namespace Execution

def Staged (x : Execution) : Prop :=
  Stage x.budget.amount x.budget.limit x.program x.waiting x.messages x.truth x.reported

theorem staged_start (budget : BudgetContext) (requestId : CallId) :
    Staged { budget, requestId, program := budgetCall budget.inputLimit budget.outputLimit } := by
  unfold Staged
  by_cases h : budget.inputLimit ≤ 0 ∨ budget.outputLimit ≤ 0
  · unfold budgetCall
    rw [if_pos h]
    exact .refused _ (.inl rfl)
  · rw [budgetCall_eq h]
    exact .toReserve

theorem Staged.send {x : Execution} (h : x.Staged) : x.send.Staged := by
  obtain ⟨budget, requestId, program, waiting, messages, truth, reported⟩ := x
  change Stage budget.amount budget.limit program waiting messages truth reported at h
  cases h with
  | toReserve => exact .reserving none
  | toSettle t hsettles => exact .settling t none hsettles
  | reserving committed => exact .reserving committed
  | refused e h => exact .refused e h
  | toInvoke => exact .toInvoke _
  | settling t committed hsettles => exact .settling t committed hsettles
  | returned t hread hlimit => exact .returned t hread hlimit
  | raised t he h => exact .raised t he h

/-- The two ends of a settlement. -/
theorem stage_afterSettles {amount : ℕ} {limit : ℤ} {used reported : Option ℕ}
    {k : Except PyException Unit → CallProgram ModelResponse} (hsettles : Settles limit used k reported)
    (truth : ℕ) {messages : List CallMessage} {answer : Except PyException Unit}
    (hmessages : messages = [granted amount] ∨ ∃ committed,
      messages = [granted amount, { request := .settle used, committed }])
    (hanswer : ∀ u, answer = .ok u → messages =
      [granted amount, { request := .settle used, committed := some true }]) :
    Stage amount limit (k answer) false messages (some truth) reported := by
  have hsent : messages = [granted amount] ∨ ∃ used' committed,
      messages = [granted amount, { request := .settle used', committed }] ∧
        ∀ v ∈ used', reported = some v := by
    refine hmessages.imp_right fun ⟨committed, h⟩ => ⟨used, committed, h, ?_⟩
    cases hsettles with
    | unknown => exact fun v hv => absurd hv (by simp)
    | known => exact fun v hv => hv
  cases hsettles with
  | unknown => exact .raised truth (fun _ => ⟨_, rfl⟩) hsent
  | @known result used hread =>
    cases answer with
    | error e =>
      refine .raised truth (fun he => ?_) hsent
      split at he
      · rename_i hexception
        rw [if_pos hexception]
        exact ⟨_, rfl⟩
      · rename_i hexception
        exact absurd he hexception
    | ok u =>
      change Stage _ _ (if limit < used then _ else _) _ _ _ _
      split
      · exact .raised truth (fun _ => ⟨_, rfl⟩) hsent
      · rename_i hlimit
        rw [hanswer u rfl]
        exact .returned truth hread (Int.not_lt.mp hlimit)

/-- A request that fails for its caller. -/
theorem Staged.fail {x : Execution} (h : x.Staged) (e : PyException) :
    (x.resume (.error e)).Staged := by
  obtain ⟨budget, requestId, program, waiting, messages, truth, reported⟩ := x
  change Stage budget.amount budget.limit program waiting messages truth reported at h
  cases h with
  | toReserve => exact .refused e (.inl rfl)
  | reserving committed => exact .refused e (.inr ⟨committed, rfl⟩)
  | toSettle t hsettles =>
    exact stage_afterSettles hsettles t (.inl rfl) fun u hu => absurd hu (by simp)
  | settling t committed hsettles =>
    exact stage_afterSettles hsettles t (.inr ⟨committed, rfl⟩) fun u hu => absurd hu (by simp)
  | refused e h => exact .refused e h
  | toInvoke => exact .toInvoke _
  | returned t hread hlimit => exact .returned t hread hlimit
  | raised t he h => exact .raised t he h

theorem Staged.deliver {x : Execution} (h : x.Staged) : x.deliver.Staged := by
  by_cases hcommitted : x.waiting = true ∧ x.messages.getLast?.bind (·.committed) = some true
  · have hdeliver : x.deliver = x.resume (.ok ()) := by
      unfold Execution.deliver
      rw [hcommitted.1, hcommitted.2]
    rw [hdeliver]
    obtain ⟨budget, requestId, program, waiting, messages, truth, reported⟩ := x
    change Stage budget.amount budget.limit program waiting messages truth reported at h
    obtain ⟨hwaiting, hlast⟩ := hcommitted
    cases h with
    | reserving committed =>
      obtain rfl : committed = some true := hlast
      exact .toInvoke none
    | settling t committed hsettles =>
      obtain rfl : committed = some true := hlast
      exact stage_afterSettles hsettles t (.inr ⟨_, rfl⟩) fun _ _ => rfl
    | _ => exact absurd hwaiting (by simp)
  · -- A refusal reaches the caller as an exception, and nothing else arrives.
    unfold Execution.deliver
    split
    · rename_i hwaiting hlast
      exact absurd ⟨hwaiting, hlast⟩ hcommitted
    · exact h.fail _
    · exact h

theorem Staged.invoke {x : Execution} (h : x.Staged) (truth : ℕ) : (x.invoke truth).Staged := by
  obtain ⟨budget, requestId, program, waiting, messages, t, reported⟩ := x
  change Stage budget.amount budget.limit program waiting messages t reported at h
  cases h with
  | toInvoke t =>
    cases t with
    | none => exact .toInvoke _
    | some t => exact .toInvoke _
  | toReserve => exact .toReserve
  | reserving committed => exact .reserving committed
  | refused e h => exact .refused e h
  | toSettle t hsettles => exact .toSettle t hsettles
  | settling t committed hsettles => exact .settling t committed hsettles
  | returned t hread hlimit => exact .returned t hread hlimit
  | raised t he h => exact .raised t he h

/-- A call that failed is given up. -/
theorem stage_giveUp {amount : ℕ} {limit : ℤ} (e : PyException) (truth : ℕ)
    (reported : Option ℕ) :
    Stage amount limit (giveUp e) false [granted amount] (some truth) reported := by
  unfold giveUp
  split
  · exact .toSettle truth (.unknown reported)
  · rename_i hexception
    exact .raised truth (fun he => absurd he hexception) (.inl rfl)

/-- A response leads to the settlement of what it reports. -/
theorem stage_afterInvoke {amount : ℕ} {limit : ℤ} (truth : ℕ)
    (outcome : Except PyException ModelResponse) :
    Stage amount limit (afterInvoke limit outcome) false [granted amount] (some truth)
      (outcome.bind readUsage).toOption := by
  cases outcome with
  | error e => exact stage_giveUp e truth _
  | ok result =>
    cases hread : readUsage result with
    | error e =>
      simp only [afterInvoke, Except.bind, hread]
      exact stage_giveUp e truth _
    | ok used =>
      simp only [afterInvoke, Except.bind, hread]
      exact .toSettle truth (.known hread)

theorem Staged.answer {x : Execution} (h : x.Staged)
    (outcome : Except PyException ModelResponse) : (x.answer outcome).Staged := by
  obtain ⟨budget, requestId, program, waiting, messages, t, reported⟩ := x
  change Stage budget.amount budget.limit program waiting messages t reported at h
  cases h with
  | toInvoke t =>
    cases t with
    | none => exact .toInvoke _
    | some t => exact stage_afterInvoke t outcome
  | toReserve => exact .toReserve
  | reserving committed => exact .reserving committed
  | refused e h => exact .refused e h
  | toSettle t hsettles => exact .toSettle t hsettles
  | settling t committed hsettles => exact .settling t committed hsettles
  | returned t hread hlimit => exact .returned t hread hlimit
  | raised t he h => exact .raised t he h

/-- The server takes a request that was not taken yet. -/
theorem Staged.serve {x : Execution} (h : x.Staged) {j : ℕ} {effect : CallEffect}
    (hj : x.messages[j]? = some { request := effect, committed := none }) (committed : Bool) :
    Staged { x with messages :=
      x.messages.set j { request := effect, committed := some committed } } := by
  obtain ⟨budget, requestId, program, waiting, messages, truth, reported⟩ := x
  change Stage budget.amount budget.limit program waiting messages truth reported at h
  change messages[j]? = _ at hj
  change Stage budget.amount budget.limit program waiting (messages.set j _) truth reported
  -- The only request of one list, or the second of two, is the one that is taken.
  have hone : ∀ {request : CallEffect} {c : Option Bool},
      messages = [{ request, committed := c }] →
        messages.set j { request := effect, committed := some committed } =
          [{ request, committed := some committed }] ∧ c = none := by
    rintro request c rfl
    match j, hj with
    | 0, hj =>
      obtain ⟨rfl, rfl⟩ := CallMessage.mk.inj (Option.some.inj hj)
      exact ⟨rfl, rfl⟩
  have htwo : ∀ {request : CallEffect} {c : Option Bool},
      messages = [granted budget.amount, { request, committed := c }] →
        messages.set j { request := effect, committed := some committed } =
          [granted budget.amount, { request, committed := some committed }] ∧ c = none := by
    rintro request c rfl
    match j, hj with
    | 0, hj =>
      obtain ⟨-, hnone⟩ := CallMessage.mk.inj (Option.some.inj hj)
      exact absurd hnone (by simp)
    | 1, hj =>
      obtain ⟨rfl, rfl⟩ := CallMessage.mk.inj (Option.some.inj hj)
      exact ⟨rfl, rfl⟩
  cases h with
  | toReserve => exact absurd hj (by simp)
  | reserving c =>
    rw [(hone rfl).1]
    exact .reserving _
  | refused e h =>
    rcases h with rfl | ⟨c, hc⟩
    · exact absurd hj (by simp)
    · rw [(hone hc).1]
      exact .refused e (.inr ⟨_, rfl⟩)
  | toInvoke => exact absurd (hone rfl).2 (by simp)
  | toSettle => exact absurd (hone rfl).2 (by simp)
  | settling t c hsettles =>
    rw [(htwo rfl).1]
    exact .settling t _ hsettles
  | returned => exact absurd (htwo rfl).2 (by simp)
  | raised t he h =>
    rcases h with hfirst | ⟨used, c, hc, hused⟩
    · exact absurd (hone hfirst).2 (by simp)
    · rw [(htwo hc).1]
      exact .raised t he (.inr ⟨used, _, rfl, hused⟩)

end Execution

end Runtime

end AgentReliability
