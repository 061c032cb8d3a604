import AgentReliability.Runtime.Graph
/-!
# How a run of the agent ends

On a new thread `SelfAgent` goes in rounds: the model is asked, and the
calls of its answer are made. A run ends in the first round that does not
go through, or where the turns are used up. But a round is two supersteps
of the graph, and a run of the graph has no more than its limit.
-/

namespace AgentReliability

namespace Runtime

namespace SelfAgent

/-! ## Rounds -/

/-- What the two nodes of a round meet. -/
structure Round where
  agent : AgentMeets
  tools : ℕ → ToolMeets

/-- A node in a round. -/
def execNode (budget : Shared.Budget) :
    GraphNode → AgentState → Round → List ModelCall × Except AgentError StateUpdate
  | .agent, s, x => agentNode budget s x.agent
  | .tools, s, x => ([], toolsNode s x.tools)

/-- `recursion_limit`. -/
def recursionLimit : ℕ := 200

/-- What a superstep meets: there are two in a round. -/
def superstep (rounds : ℕ → Round) (i : ℕ) : Round := rounds (i / 2)

theorem superstep_agent (rounds : ℕ → Round) (k : ℕ) : superstep rounds (2 * k) = rounds k :=
  congrArg rounds (by omega)

theorem superstep_tools (rounds : ℕ → Round) (k : ℕ) : superstep rounds (2 * k + 1) = rounds k :=
  congrArg rounds (by omega)

section

variable (repr : List String → String) (spec : Shared.TaskSpec) (budget : Shared.Budget)
  (rounds : ℕ → Round)

/-- `run` on a new thread: the calls of the model, and how it ends. -/
def runNew : List ModelCall × GraphEnd AgentError × AgentThread :=
  build.drive (execNode budget) (superstep rounds) recursionLimit 0
    (started repr spec { values := {} })

/-- The calls of the response of a round. -/
def callsOf (k : ℕ) : List AiToolCall := (rounds k).agent.response.elim [] (·.toolCalls)

/-- The `(name, args)` of some calls: the arguments are objects, and the
order of their keys does not count. -/
def namedCalls (calls : List AiToolCall) : List (String × PyValue) :=
  calls.map fun call => (call.name, (PyValue.dict call.args).sortKeys)

/-- What the responses of the first rounds come to, with what was condensed
for them. -/
def tokensUsed : ℕ → ℤ
  | 0 => 0
  | k + 1 => tokensUsed k + (rounds k).agent.response.elim 0 fun r =>
      r.promptTokens + r.completionTokens + (rounds k).agent.condenseTokens

/-- The text of a result. -/
def ToolMeets.content : ToolMeets → String
  | .result content _ => content
  | .crashed => ""

/-- The answers to calls that are all made. -/
def outputsOf (meets : ℕ → ToolMeets) : ℕ → List AiToolCall → List ThreadMessage
  | _, [] => []
  | i, call :: calls =>
    { message := .tool (.text (meets i).content) call.id } :: outputsOf meets (i + 1) calls

/-- The messages of a thread whose first rounds went through. -/
def history : ℕ → List ThreadMessage
  | 0 => (initialState repr spec).messages
  | k + 1 => history k ++ (rounds k).agent.response.elim [] fun r =>
      ⟨r.id, .ai r.content r.toolCalls⟩ :: outputsOf (rounds k).tools 0 r.toolCalls

/-- The response of a round repeats those of the two before. -/
def Repeated (k : ℕ) : Prop :=
  2 ≤ k ∧ callsOf rounds k ≠ [] ∧ namedCalls (callsOf rounds k) = namedCalls (callsOf rounds (k - 1)) ∧
    namedCalls (callsOf rounds k) = namedCalls (callsOf rounds (k - 2))

/-- A round is within the budgets, nothing is raised in it, and its calls
are made. -/
structure Answered (k : ℕ) : Prop where
  seconds : (rounds k).agent.elapsed ≤ budget.remainingSeconds
  condensed : pruneMessages (rounds k).agent.condense
    ((history repr spec rounds k).map (·.message)) ≠ none
  response : (rounds k).agent.response ≠ none
  tokens : tokensUsed rounds (k + 1) ≤ budget.tokens
  calls : callsOf rounds k ≠ []
  made : ∀ i < (callsOf rounds k).length, ∃ content, (rounds k).tools i = .result content true

/-- The run goes on after the round. -/
structure GoesThrough (k : ℕ) : Prop extends Answered repr spec budget rounds k where
  fresh : ¬ Repeated rounds k

/-- **Why a run ends**, after so many calls of the model. -/
inductive EndsBecause : ℕ → GraphEnd AgentError → Prop where
  | noCalls {k : ℕ} (response : (rounds k).agent.response ≠ none) (calls : callsOf rounds k = []) :
      EndsBecause (k + 1) .finished
  | turns {k : ℕ} {detail : String} (turns : budget.turns = k) :
      EndsBecause k (.raised (.budgetExceeded .turns detail))
  | seconds {k : ℕ} {detail : String} (turn : k < budget.turns)
      (seconds : budget.remainingSeconds < (rounds k).agent.elapsed) :
      EndsBecause k (.raised (.budgetExceeded .seconds detail))
  | tokens {k : ℕ} {detail : String} (tokens : budget.tokens < tokensUsed rounds (k + 1)) :
      EndsBecause (k + 1) (.raised (.budgetExceeded .tokens detail))
  | stuck {k : ℕ} {text : String} (repeated : Repeated rounds k)
      (tokens : tokensUsed rounds (k + 1) ≤ budget.tokens) :
      EndsBecause (k + 1) (.raised (.agentStuck text))
  | sandbox {k i : ℕ} (call : i < (callsOf rounds k).length)
      (crashed : (rounds k).tools i = .crashed) : EndsBecause (k + 1) (.raised .sandboxCrashed)
  | onCheckpoint {k i : ℕ} {content : String} (call : i < (callsOf rounds k).length)
      (unsaved : (rounds k).tools i = .result content false) :
      EndsBecause (k + 1) (.raised .onCheckpoint)
  | condenser {k : ℕ} (turn : k < budget.turns)
      (raised : pruneMessages (rounds k).agent.condense
        ((history repr spec rounds k).map (·.message)) = none) : EndsBecause k (.raised .model)
  | model {k : ℕ} (raised : (rounds k).agent.response = none) : EndsBecause (k + 1) (.raised .model)

/-- The model keeps issuing different calls, and they are all made. -/
structure KeepsDiffering : Prop where
  answered : ∀ k : ℕ, k < budget.turns → Answered repr spec budget rounds k
  different : ∀ j k : ℕ, j < k → k < budget.turns →
    namedCalls (callsOf rounds k) ≠ namedCalls (callsOf rounds j)

/-- **A run ends only for its stated reasons.** -/
structure EndsAsStated (run : List ModelCall × GraphEnd AgentError × AgentThread) : Prop where
  answers : run.1.map (·.answer) =
    (List.range run.1.length).map fun k => (rounds k).agent.response
  calls : run.1.length ≤ budget.turns
  because : EndsBecause repr spec budget rounds run.1.length run.2.1
  stuck : ∀ k, run.1.length = k + 1 → Repeated rounds k → tokensUsed rounds (k + 1) ≤ budget.tokens →
    ∃ text, run.2.1 = .raised (.agentStuck text)
  turns : KeepsDiffering repr spec budget rounds → run.1.length = budget.turns ∧
    ∃ detail, run.2.1 = .raised (.budgetExceeded .turns detail)

/-- All rounds go through that the limit of the graph has room for, and the
turns are no fewer. -/
def LimitReached : Prop :=
  recursionLimit ≤ 2 * budget.turns ∧
    ∀ k, 2 * k < recursionLimit → GoesThrough repr spec budget rounds k

/-- A response has an id no other has, if it has one. -/
def DistinctIds : Prop :=
  ∀ j k r r', j < k → (rounds j).agent.response = some r → (rounds k).agent.response = some r' →
    r'.id ≠ none → r.id ≠ r'.id

end

/-! ## Signatures -/

/-- Two responses have one signature if their calls are the same. -/
theorem signature_inj {calls calls' : List AiToolCall} :
    signature calls = signature calls' ↔ namedCalls calls = namedCalls calls' := by
  have hsorted : ∀ calls : List AiToolCall, (PyValue.list (calls.map fun call =>
      .list [.str call.name, .dict call.args])).sortKeys = .list ((namedCalls calls).map fun x =>
        .list [.str x.1, x.2]) := by
    intro calls
    rw [PyValue.sortKeys, PyValue.sortItems_eq_map, namedCalls, List.map_map, List.map_map]
    rfl
  have hinj : Function.Injective fun x : String × PyValue => PyValue.list [.str x.1, x.2] := by
    rintro ⟨name, args⟩ ⟨name', args'⟩ h
    obtain ⟨rfl, rfl⟩ : name = name' ∧ args = args' := by simpa using h
    rfl
  unfold signature
  rw [PyValue.dumps_inj, hsorted, hsorted, PyValue.list.injEq]
  exact hinj.list_map.eq_iff

theorem signature_eq_empty {calls : List AiToolCall} : signature calls = "[]" ↔ calls = [] := by
  have hempty : signature [] = "[]" := by decide +kernel
  rw [← hempty, signature_inj]
  show namedCalls calls = [] ↔ _
  rw [namedCalls, List.map_eq_nil_iff]

/-- The signatures of the first rounds. -/
def signaturesOf (rounds : ℕ → Round) (k : ℕ) : List String :=
  (List.range k).map fun j => signature (callsOf rounds j)

theorem signaturesOf_succ (rounds : ℕ → Round) (k : ℕ) :
    signaturesOf rounds (k + 1) = signaturesOf rounds k ++ [signature (callsOf rounds k)] := by
  unfold signaturesOf
  rw [List.range_succ, List.map_append]
  rfl

/-- The last elements, of the last elements and one more. -/
theorem rtake_concat_rtake {α : Type} (l : List α) (a : α) (n : ℕ) :
    (l.rtake n ++ [a]).rtake n = (l ++ [a]).rtake n := by
  cases n with
  | zero => simp
  | succ n =>
    rw [List.rtake_concat_succ, List.rtake_concat_succ, List.rtake_eq_reverse_take_reverse,
      List.rtake_eq_reverse_take_reverse (l := l), List.reverse_reverse, List.take_take,
      List.rtake_eq_reverse_take_reverse]
    rw [Nat.min_eq_left (Nat.le_succ n)]

theorem length_eraseDups_three {a b c : String} :
    [a, b, c].eraseDups.length = 1 ↔ c = b ∧ c = a := by
  rw [List.eraseDups_cons]
  by_cases hb : b = a
  · by_cases hc : c = a <;> simp [hb, hc, List.eraseDups_cons]
  · have hba : ¬ a = b := fun h => hb h.symm
    by_cases hc : c = a <;> simp [hb, hc, hba, List.eraseDups_cons]

section

variable {repr : List String → String} {spec : Shared.TaskSpec} {budget : Shared.Budget}
  {rounds : ℕ → Round} {k : ℕ}

theorem callsOf_eq {r : ModelResponse} (hr : (rounds k).agent.response = some r) :
    callsOf rounds k = r.toolCalls := by
  rw [callsOf, hr]
  rfl

/-- **The agent is stuck where a response repeats the two before.** -/
theorem stuck_iff {r : ModelResponse} (hr : (rounds k).agent.response = some r) :
    Stuck ((signaturesOf rounds (k + 1)).rtake maxStuckRepeats) r ↔ Repeated rounds k := by
  rcases Nat.lt_or_ge k 2 with hk | hk
  · -- there are not enough signatures yet
    constructor
    · rintro ⟨hlength, -, -⟩
      rw [List.rtake, List.length_drop, signaturesOf, List.length_map, List.length_range] at hlength
      unfold maxStuckRepeats at hlength
      omega
    · rintro ⟨h2, -⟩
      omega
  · obtain ⟨n, rfl⟩ : ∃ n, k = n + 2 := ⟨k - 2, by omega⟩
    have hlast : (signaturesOf rounds (n + 2 + 1)).rtake maxStuckRepeats =
        [signature (callsOf rounds n), signature (callsOf rounds (n + 1)),
          signature (callsOf rounds (n + 2))] := by
      show (signaturesOf rounds (n + 2 + 1)).rtake (2 + 1) = _
      rw [signaturesOf_succ, List.rtake_concat_succ, signaturesOf_succ, List.rtake_concat_succ,
        signaturesOf_succ, List.rtake_concat_succ, List.rtake_zero]
      rfl
    rw [hlast, Stuck, length_eraseDups_three, signature_inj, signature_inj, ← callsOf_eq hr, Ne,
      signature_eq_empty]
    show 3 = maxStuckRepeats ∧ _ ↔ 2 ≤ n + 2 ∧ callsOf rounds (n + 2) ≠ [] ∧
      _ = namedCalls (callsOf rounds (n + 1)) ∧ _ = namedCalls (callsOf rounds n)
    constructor
    · rintro ⟨-, ⟨hone, htwo⟩, hne⟩
      exact ⟨hk, hne, hone, htwo⟩
    · rintro ⟨-, hne, hone, htwo⟩
      exact ⟨rfl, ⟨hone, htwo⟩, hne⟩

/-! ## One round -/

/-- The state after the first rounds, if they go through. -/
def stateAfter (repr : List String → String) (spec : Shared.TaskSpec) (rounds : ℕ → Round) (k : ℕ) :
    AgentState where
  messages := history repr spec rounds k
  turn := k
  usedTokens := tokensUsed rounds k
  stuckSignatures := (signaturesOf rounds k).rtake maxStuckRepeats

def threadAfter (repr : List String → String) (spec : Shared.TaskSpec) (rounds : ℕ → Round) (k : ℕ) :
    AgentThread where
  values := stateAfter repr spec rounds k
  next := some .agent

theorem started_eq : started repr spec { values := {} } = threadAfter repr spec rounds 0 := by
  have hnone : ∀ m ∈ (initialState repr spec).messages, m.id = none := by
    intro m hm
    obtain ⟨message, -, rfl⟩ := List.mem_map.mp hm
    rfl
  have hmessages := addMessages_of_none [] hnone
  rw [List.nil_append] at hmessages
  show GraphThread.mk (AgentState.mk (addMessages [] _) _ _ _ _) _ = _
  rw [hmessages]
  rfl

theorem usedAfter_stateAfter {r : ModelResponse} (hr : (rounds k).agent.response = some r) :
    usedAfter (stateAfter repr spec rounds k) (rounds k).agent r = tokensUsed rounds (k + 1) := by
  show tokensUsed rounds k + r.promptTokens + r.completionTokens + _ = tokensUsed rounds k + _
  rw [hr, Option.elim_some, Int.add_assoc, Int.add_assoc, Int.add_assoc]

theorem signaturesAfter_stateAfter {r : ModelResponse} (hr : (rounds k).agent.response = some r) :
    signaturesAfter (stateAfter repr spec rounds k) r =
      (signaturesOf rounds (k + 1)).rtake maxStuckRepeats := by
  show ((signaturesOf rounds k).rtake _ ++ [signature r.toolCalls]).rtake _ = _
  rw [rtake_concat_rtake, signaturesOf_succ, callsOf_eq hr]

/-- The agent node of a round, up to the call of the model. -/
theorem asks_stateAfter (repr : List String → String) (spec : Shared.TaskSpec)
    (budget : Shared.Budget) (rounds : ℕ → Round) {k : ℕ} (hturn : k < budget.turns) :
    (budget.remainingSeconds < (rounds k).agent.elapsed ∧ ∃ detail,
        asks budget (stateAfter repr spec rounds k) (rounds k).agent =
          .error (.budgetExceeded .seconds detail)) ∨
      (pruneMessages (rounds k).agent.condense
          ((history repr spec rounds k).map (·.message)) = none ∧
        asks budget (stateAfter repr spec rounds k) (rounds k).agent = .error .model) ∨
      ((rounds k).agent.elapsed ≤ budget.remainingSeconds ∧ ∃ asked,
        pruneMessages (rounds k).agent.condense
          ((history repr spec rounds k).map (·.message)) = some asked ∧
        asks budget (stateAfter repr spec rounds k) (rounds k).agent = .ok asked) := by
  unfold asks
  rw [if_neg (by show ¬ budget.turns ≤ (k : ℤ); omega)]
  by_cases hseconds : budget.remainingSeconds < (rounds k).agent.elapsed
  · exact .inl ⟨hseconds, _, if_pos hseconds⟩
  · rw [if_neg hseconds]
    have hconversation : (stateAfter repr spec rounds k).conversation =
        (history repr spec rounds k).map (·.message) := rfl
    rw [hconversation]
    cases hasked : pruneMessages (rounds k).agent.condense
        ((history repr spec rounds k).map (·.message)) with
    | none => exact .inr (.inl ⟨rfl, rfl⟩)
    | some asked => exact .inr (.inr ⟨by omega, asked, rfl, rfl⟩)

/-- What is made of a response. -/
theorem receives_stateAfter {r : ModelResponse} (hr : (rounds k).agent.response = some r) :
    (budget.tokens < tokensUsed rounds (k + 1) ∧ ∃ detail,
        receives budget (stateAfter repr spec rounds k) (rounds k).agent r =
          .error (.budgetExceeded .tokens detail)) ∨
      (tokensUsed rounds (k + 1) ≤ budget.tokens ∧ Repeated rounds k ∧ ∃ text,
        receives budget (stateAfter repr spec rounds k) (rounds k).agent r =
          .error (.agentStuck text)) ∨
      (tokensUsed rounds (k + 1) ≤ budget.tokens ∧ ¬ Repeated rounds k ∧
        receives budget (stateAfter repr spec rounds k) (rounds k).agent r =
          .ok (responseUpdate (stateAfter repr spec rounds k) (rounds k).agent r)) := by
  unfold receives
  rw [usedAfter_stateAfter hr, signaturesAfter_stateAfter hr]
  by_cases htokens : budget.tokens < tokensUsed rounds (k + 1)
  · exact .inl ⟨htokens, _, if_pos htokens⟩
  · rw [if_neg htokens]
    by_cases hstuck : Stuck ((signaturesOf rounds (k + 1)).rtake maxStuckRepeats) r
    · exact .inr (.inl ⟨by omega, (stuck_iff hr).mp hstuck, _, if_pos hstuck⟩)
    · exact .inr (.inr ⟨by omega, fun h => hstuck ((stuck_iff hr).mpr h), if_neg hstuck⟩)

/-! ### The two nodes -/

theorem id_outputsOf (meets : ℕ → ToolMeets) (i : ℕ) (calls : List AiToolCall) :
    ∀ m ∈ outputsOf meets i calls, m.id = none := by
  induction calls generalizing i with
  | nil => simp [outputsOf]
  | cons call calls ih => exact List.forall_mem_cons.mpr ⟨rfl, ih (i + 1)⟩

/-- The messages that have an id are responses. -/
theorem id_of_mem_history {m : ThreadMessage} (hm : m ∈ history repr spec rounds k) :
    m.id = none ∨ ∃ j < k, ∃ r, (rounds j).agent.response = some r ∧ m.id = r.id := by
  induction k with
  | zero =>
    obtain ⟨message, -, rfl⟩ := List.mem_map.mp hm
    exact .inl rfl
  | succ k ih =>
    rcases List.mem_append.mp hm with hm | hm
    · rcases ih hm with hid | ⟨j, hj, r, hr, hid⟩
      · exact .inl hid
      · exact .inr ⟨j, by omega, r, hr, hid⟩
    · cases hr : (rounds k).agent.response with
      | none =>
        rw [hr] at hm
        exact absurd hm List.not_mem_nil
      | some r =>
        rw [hr] at hm
        rcases List.mem_cons.mp hm with rfl | hm
        · exact .inr ⟨k, by omega, r, hr, rfl⟩
        · exact .inl (id_outputsOf _ _ _ m hm)

/-- The loop of the tools node makes all calls, or is left at one of
them. -/
theorem toolsOutputs_cases (meets : ℕ → ToolMeets) (i : ℕ) (calls : List AiToolCall) :
    ((∀ j < calls.length, ∃ content, meets (i + j) = .result content true) ∧
        toolsOutputs meets i calls = .ok (outputsOf meets i calls)) ∨
      (∃ j < calls.length, meets (i + j) = .crashed ∧
        toolsOutputs meets i calls = .error .sandboxCrashed) ∨
      ∃ j < calls.length, ∃ content, meets (i + j) = .result content false ∧
        toolsOutputs meets i calls = .error .onCheckpoint := by
  induction calls generalizing i with
  | nil => exact .inl ⟨by simp, rfl⟩
  | cons call calls ih =>
    rw [toolsOutputs, outputsOf]
    cases hmeets : meets i with
    | crashed => exact .inr (.inl ⟨0, by simp, hmeets, rfl⟩)
    | result content saved =>
      cases saved with
      | false => exact .inr (.inr ⟨0, by simp, content, hmeets, rfl⟩)
      | true =>
        have hshift : ∀ j, i + 1 + j = i + (j + 1) := by omega
        rcases ih (i + 1) with ⟨hall, hok⟩ | ⟨j, hj, hcrashed, herror⟩ | ⟨j, hj, text, hunsaved, herror⟩
        · refine .inl ⟨fun j hj => ?_, by rw [hok]; rfl⟩
          cases j with
          | zero => exact ⟨content, hmeets⟩
          | succ j =>
            rw [← hshift]
            exact hall j (by simpa using hj)
        · exact .inr (.inl ⟨j + 1, by simpa using hj, (hshift j) ▸ hcrashed, by rw [herror]; rfl⟩)
        · exact .inr (.inr ⟨j + 1, by simpa using hj, text, (hshift j) ▸ hunsaved,
            by rw [herror]; rfl⟩)

/-- The thread between the two nodes of a round. -/
def threadBetween (repr : List String → String) (spec : Shared.TaskSpec) (rounds : ℕ → Round) (k : ℕ)
    (r : ModelResponse) : AgentThread where
  values := { stateAfter repr spec rounds (k + 1) with
    messages := history repr spec rounds k ++ [⟨r.id, .ai r.content r.toolCalls⟩]
    done := r.toolCalls.isEmpty }
  next := if r.toolCalls.isEmpty then none else some .tools

theorem write_agent (hids : DistinctIds rounds) {r : ModelResponse}
    (hr : (rounds k).agent.response = some r) :
    build.write .agent (threadAfter repr spec rounds k)
        (responseUpdate (stateAfter repr spec rounds k) (rounds k).agent r) =
      threadBetween repr spec rounds k r := by
  have hnew : ∀ m ∈ history repr spec rounds k, r.id ≠ none → m.id ≠ r.id := by
    intro m hm hid
    rcases id_of_mem_history hm with hnone | ⟨j, hj, r', hr', hmid⟩
    · rw [hnone]
      exact fun h => hid h.symm
    · rw [hmid]
      exact hids j k r' r hj hr' hr hid
  have hvalues : (stateAfter repr spec rounds k).reduce
      (responseUpdate (stateAfter repr spec rounds k) (rounds k).agent r) =
        (threadBetween repr spec rounds k r).values := by
    show AgentState.mk (addMessages (history repr spec rounds k) [⟨r.id, _⟩]) ((k : ℤ) + 1)
      (usedAfter _ _ r) (signaturesAfter _ r) _ = _
    rw [addMessages_of_new hnew, usedAfter_stateAfter hr, signaturesAfter_stateAfter hr]
    rfl
  show GraphThread.mk ((stateAfter repr spec rounds k).reduce _) _ = _
  rw [hvalues]
  rfl

/-- The tools node of a round. -/
theorem toolsNode_between {r : ModelResponse} {result : Except AgentError (List ThreadMessage)}
    (h : toolsOutputs (rounds k).tools 0 r.toolCalls = result) :
    toolsNode (threadBetween repr spec rounds k r).values (rounds k).tools =
      result.map fun outputs => { messages := outputs } := by
  have hlast : (threadBetween repr spec rounds k r).values.conversation.getLast? =
      some (.ai r.content r.toolCalls) := by
    show ((history repr spec rounds k ++ [ThreadMessage.mk r.id (.ai r.content r.toolCalls)]).map
      ThreadMessage.message).getLast? = _
    rw [List.map_append, List.map_singleton, List.getLast?_concat]
  unfold toolsNode
  rw [hlast]
  show (toolsOutputs (rounds k).tools 0 r.toolCalls >>= fun outputs =>
    .ok (StateUpdate.mk outputs none none none none)) = _
  rw [h]
  cases result <;> rfl

/-- All calls were made. -/
theorem write_tools {r : ModelResponse} (hr : (rounds k).agent.response = some r)
    (hcalls : r.toolCalls ≠ []) :
    build.write .tools (threadBetween repr spec rounds k r)
        { messages := outputsOf (rounds k).tools 0 r.toolCalls } =
      threadAfter repr spec rounds (k + 1) := by
  have hdone : r.toolCalls.isEmpty = false := by simpa using hcalls
  have hmessages : addMessages (history repr spec rounds k ++ [⟨r.id, .ai r.content r.toolCalls⟩])
      (outputsOf (rounds k).tools 0 r.toolCalls) = history repr spec rounds (k + 1) := by
    rw [addMessages_of_none _ (id_outputsOf _ _ _), List.append_assoc, history, hr]
    rfl
  show GraphThread.mk (AgentState.mk (addMessages
    (history repr spec rounds k ++ [⟨r.id, .ai r.content r.toolCalls⟩])
    (outputsOf (rounds k).tools 0 r.toolCalls)) _ _ _ r.toolCalls.isEmpty) _ = _
  rw [hmessages, hdone]
  rfl

/-! ### The supersteps -/

/-- The supersteps from a round on. -/
def driveFrom (repr : List String → String) (spec : Shared.TaskSpec) (budget : Shared.Budget)
    (rounds : ℕ → Round) (limit k : ℕ) : List ModelCall × GraphEnd AgentError × AgentThread :=
  build.drive (execNode budget) (superstep rounds) limit (2 * k)
    (threadAfter repr spec rounds k)

/-- The agent node raises. -/
theorem driveFrom_error {left : List ModelCall} {e : AgentError}
    (h : agentNode budget (stateAfter repr spec rounds k) (rounds k).agent = (left, .error e))
    (limit : ℕ) : driveFrom repr spec budget rounds (limit + 1) k =
      (left, .raised e, threadAfter repr spec rounds k) := by
  refine StateGraph.drive_error ?_
  show agentNode budget (stateAfter repr spec rounds k) (superstep rounds (2 * k)).agent = _
  rw [superstep_agent]
  exact h

/-- The agent node answers. -/
theorem driveFrom_ok (hids : DistinctIds rounds) {asked : List BaseMessage} {r : ModelResponse}
    (hr : (rounds k).agent.response = some r)
    (h : agentNode budget (stateAfter repr spec rounds k) (rounds k).agent =
      ([⟨asked, some r⟩], .ok (responseUpdate (stateAfter repr spec rounds k) (rounds k).agent r)))
    (limit : ℕ) :
    let rest := build.drive (execNode budget) (superstep rounds) limit (2 * k + 1)
      (threadBetween repr spec rounds k r)
    driveFrom repr spec budget rounds (limit + 1) k = (⟨asked, some r⟩ :: rest.1, rest.2) := by
  intro rest
  have hexec : execNode budget .agent (stateAfter repr spec rounds k) (superstep rounds (2 * k)) =
      ([⟨asked, some r⟩],
        .ok (responseUpdate (stateAfter repr spec rounds k) (rounds k).agent r)) := by
    rw [superstep_agent]
    exact h
  have hwrite : build.write .agent ⟨stateAfter repr spec rounds k, some .agent⟩
      (responseUpdate (stateAfter repr spec rounds k) (rounds k).agent r) =
        threadBetween repr spec rounds k r := write_agent hids hr
  rw [driveFrom, threadAfter, StateGraph.drive_ok hexec, hwrite]
  rfl

/-- The tools node makes the calls, and the next round is due; or it
raises. -/
theorem drive_between {r : ModelResponse} (hr : (rounds k).agent.response = some r)
    (hcalls : r.toolCalls ≠ []) (limit : ℕ) :
    let run := build.drive (execNode budget) (superstep rounds) (limit + 1) (2 * k + 1)
      (threadBetween repr spec rounds k r)
    ((∀ i < (callsOf rounds k).length, ∃ content, (rounds k).tools i = .result content true) ∧
        run = driveFrom repr spec budget rounds limit (k + 1)) ∨
      ∃ e t, run = ([], .raised e, t) ∧
        EndsBecause repr spec budget rounds (k + 1) (.raised e) ∧
        ¬ ∀ i < (callsOf rounds k).length, ∃ content, (rounds k).tools i = .result content true := by
  intro run
  have hnext : threadBetween repr spec rounds k r =
      ⟨(threadBetween repr spec rounds k r).values, some .tools⟩ := by
    unfold threadBetween
    rw [if_neg (by simpa using hcalls)]
  have hexec : ∀ {result}, toolsOutputs (rounds k).tools 0 r.toolCalls = result →
      execNode budget .tools (threadBetween repr spec rounds k r).values
        (superstep rounds (2 * k + 1)) =
          ([], result.map fun outputs => { messages := outputs }) := by
    intro result hresult
    rw [superstep_tools]
    exact congrArg (Prod.mk []) (toolsNode_between hresult)
  have hraises : ∀ {e}, toolsOutputs (rounds k).tools 0 r.toolCalls = .error e →
      run = ([], .raised e, threadBetween repr spec rounds k r) := by
    intro e herror
    show build.drive _ _ _ _ _ = _
    rw [hnext]
    exact StateGraph.drive_error (hexec herror)
  rw [callsOf_eq hr]
  rcases toolsOutputs_cases (rounds k).tools 0 r.toolCalls with
    ⟨hmade, hok⟩ | ⟨i, hi, hcrashed, herror⟩ | ⟨i, hi, content, hunsaved, herror⟩
  · refine .inl ⟨fun i hi => ?_, ?_⟩
    · rw [← Nat.zero_add i]
      exact hmade i hi
    · show build.drive _ _ _ _ _ = _
      rw [hnext, StateGraph.drive_ok (hexec hok), ← hnext, write_tools hr hcalls]
      rfl
  · rw [Nat.zero_add] at hcrashed
    refine .inr ⟨_, _, hraises herror, .sandbox (by rw [callsOf_eq hr]; exact hi) hcrashed, ?_⟩
    intro hmade
    obtain ⟨content, hcontent⟩ := hmade i hi
    exact absurd (hcrashed.symm.trans hcontent) (by simp)
  · rw [Nat.zero_add] at hunsaved
    refine .inr ⟨_, _, hraises herror, .onCheckpoint (by rw [callsOf_eq hr]; exact hi) hunsaved, ?_⟩
    intro hmade
    obtain ⟨text, htext⟩ := hmade i hi
    exact absurd (hunsaved.symm.trans htext) (by simp)

/-- What the supersteps from a round on come to. -/
structure EndsFrom (repr : List String → String) (spec : Shared.TaskSpec) (budget : Shared.Budget)
    (rounds : ℕ → Round) (k : ℕ) (run : List ModelCall × GraphEnd AgentError × AgentThread) :
    Prop where
  answers : run.1.map (·.answer) =
    (List.range' k run.1.length).map fun j => (rounds j).agent.response
  calls : (k + run.1.length : ℕ) ≤ budget.turns
  because : EndsBecause repr spec budget rounds (k + run.1.length) run.2.1
  stuck : ∀ j, k + run.1.length = j + 1 → Repeated rounds j →
    tokensUsed rounds (j + 1) ≤ budget.tokens → ∃ text, run.2.1 = .raised (.agentStuck text)

/-- The run ends before the model is asked. -/
theorem EndsFrom.uncalled (hgone : ∀ j < k, GoesThrough repr spec budget rounds j)
    (hturns : k ≤ budget.turns) {e : GraphEnd AgentError} {t : AgentThread}
    (h : EndsBecause repr spec budget rounds k e) :
    EndsFrom repr spec budget rounds k ([], e, t) := by
  refine ⟨rfl, hturns, h, ?_⟩
  intro j hj hrepeated
  have hlt : j < k := by
    rw [List.length_nil] at hj
    omega
  exact absurd hrepeated (hgone j hlt).fresh

/-- It ends after that. -/
theorem EndsFrom.called (hturn : k < budget.turns) {asked : List BaseMessage}
    {e : GraphEnd AgentError} {t : AgentThread}
    (h : EndsBecause repr spec budget rounds (k + 1) e)
    (hstuck : Repeated rounds k → tokensUsed rounds (k + 1) ≤ budget.tokens →
      ∃ text, e = .raised (.agentStuck text)) :
    EndsFrom repr spec budget rounds k ([⟨asked, (rounds k).agent.response⟩], e, t) := by
  refine ⟨rfl, by rw [List.length_singleton]; omega, h, ?_⟩
  intro j hj
  obtain rfl : k = j := by simpa using hj
  exact hstuck

/-- It ends in a later round. -/
theorem EndsFrom.cons {asked : List BaseMessage}
    {run : List ModelCall × GraphEnd AgentError × AgentThread}
    (h : EndsFrom repr spec budget rounds (k + 1) run) :
    EndsFrom repr spec budget rounds k
      (⟨asked, (rounds k).agent.response⟩ :: run.1, run.2) := by
  have hlength : k + (run.1.length + 1) = k + 1 + run.1.length := by omega
  refine ⟨?_, ?_, ?_, ?_⟩
  · rw [List.map_cons, h.answers]
    rfl
  · rw [List.length_cons, hlength]
    exact h.calls
  · rw [List.length_cons, hlength]
    exact h.because
  · rw [List.length_cons, hlength]
    exact h.stuck

/-- **One round**: the run ends in it, or goes on with the next. -/
theorem endsFrom_round (hids : DistinctIds rounds)
    (hgone : ∀ j < k, GoesThrough repr spec budget rounds j) (hturn : k < budget.turns)
    (limit : ℕ) :
    (¬ GoesThrough repr spec budget rounds k ∧
        EndsFrom repr spec budget rounds k (driveFrom repr spec budget rounds (limit + 2) k)) ∨
      (GoesThrough repr spec budget rounds k ∧ ∃ asked,
        driveFrom repr spec budget rounds (limit + 2) k =
          (⟨asked, (rounds k).agent.response⟩ ::
            (driveFrom repr spec budget rounds limit (k + 1)).1,
            (driveFrom repr spec budget rounds limit (k + 1)).2)) := by
  rcases asks_stateAfter repr spec budget rounds hturn with
    ⟨hseconds, detail, hasks⟩ | ⟨hasked, hasks⟩ | ⟨hseconds, asked, hasked, hasks⟩
  · rw [driveFrom_error (agentNode_of_error hasks)]
    refine .inl ⟨fun h => absurd h.seconds (by omega), ?_⟩
    exact .uncalled hgone hturn.le (.seconds hturn hseconds)
  · rw [driveFrom_error (agentNode_of_error hasks)]
    refine .inl ⟨fun h => h.condensed hasked, ?_⟩
    exact .uncalled hgone hturn.le (.condenser hturn hasked)
  · cases hr : (rounds k).agent.response with
    | none =>
      rw [driveFrom_error (agentNode_of_none hasks hr), ← hr]
      refine .inl ⟨fun h => h.response hr, .called hturn (.model hr) fun hrepeated => ?_⟩
      exact absurd (by rw [callsOf, hr]; rfl) hrepeated.2.1
    | some r =>
      have hnode := agentNode_of_some hasks hr
      rcases receives_stateAfter hr with ⟨htokens, detail, hreceives⟩ |
        ⟨htokens, hrepeated, text, hreceives⟩ | ⟨htokens, hfresh, hreceives⟩
      · have herror := hnode.trans (congrArg (Prod.mk _) hreceives)
        rw [driveFrom_error herror, ← hr]
        refine .inl ⟨fun h => absurd h.tokens (by omega), ?_⟩
        exact .called hturn (.tokens htokens) fun _ hle => absurd hle (by omega)
      · have herror := hnode.trans (congrArg (Prod.mk _) hreceives)
        rw [driveFrom_error herror, ← hr]
        refine .inl ⟨fun h => h.fresh hrepeated, ?_⟩
        exact .called hturn (.stuck hrepeated htokens) fun _ _ => ⟨text, rfl⟩
      · have hok := hnode.trans (congrArg (Prod.mk _) hreceives)
        have hdrive := driveFrom_ok hids hr hok (limit + 1)
        by_cases hcalls : r.toolCalls = []
        · -- the response has no calls
          have hnext : threadBetween repr spec rounds k r =
              ⟨(threadBetween repr spec rounds k r).values, none⟩ := by
            unfold threadBetween
            rw [if_pos (by rw [hcalls]; rfl)]
          rw [hnext, StateGraph.drive_finished] at hdrive
          have hnone : callsOf rounds k = [] := by rw [callsOf_eq hr, hcalls]
          rw [hdrive, ← hr]
          refine .inl ⟨fun h => h.calls hnone, ?_⟩
          exact .called hturn (.noCalls (by simp [hr]) hnone) fun h => absurd h hfresh
        · have hne : callsOf rounds k ≠ [] := by
            rw [callsOf_eq hr]
            exact hcalls
          rcases drive_between hr hcalls limit with
            ⟨hmade, hrest⟩ | ⟨e, t, hrest, hbecause, hnot⟩
          · rw [hrest] at hdrive
            refine .inr ⟨⟨⟨by omega, ?_, by simp [hr], htokens, hne, hmade⟩, hfresh⟩, asked, hdrive⟩
            rw [hasked]
            exact Option.some_ne_none asked
          · rw [hrest] at hdrive
            rw [hdrive, ← hr]
            refine .inl ⟨fun h => hnot h.made, ?_⟩
            exact .called hturn hbecause fun h => absurd h hfresh

/-! ## The run -/

/-- The turns are used up. -/
theorem driveFrom_turns (hgone : ∀ j < k, GoesThrough repr spec budget rounds j)
    (hturns : k = budget.turns) (limit : ℕ) :
    EndsFrom repr spec budget rounds k (driveFrom repr spec budget rounds (limit + 1) k) := by
  have hasks : asks budget (stateAfter repr spec rounds k) (rounds k).agent =
      .error (.budgetExceeded .turns (toString (k : ℤ) ++ "/" ++ toString budget.turns)) :=
    if_pos (by show budget.turns ≤ (k : ℤ); omega)
  rw [driveFrom_error (agentNode_of_error hasks)]
  exact .uncalled hgone hturns.le (.turns hturns.symm)

/-- From a round on, a run that does not reach the limit. -/
theorem endsFrom_rounds (hids : DistinctIds rounds)
    (hlimit : ¬ LimitReached repr spec budget rounds) (n : ℕ) :
    ∀ k, 2 * n + 2 * k = recursionLimit → (∀ j < k, GoesThrough repr spec budget rounds j) →
      k ≤ budget.turns →
        EndsFrom repr spec budget rounds k (driveFrom repr spec budget rounds (2 * n) k) := by
  induction n with
  | zero =>
    -- every round there is room for has gone through
    intro k hk hgone hturns
    exact absurd ⟨by omega, fun j hj => hgone j (by omega)⟩ hlimit
  | succ n ih =>
    intro k hk hgone hturns
    show EndsFrom repr spec budget rounds k (driveFrom repr spec budget rounds (2 * n + 2) k)
    by_cases hlast : k = budget.turns
    · exact driveFrom_turns hgone hlast _
    · have hturn : k < budget.turns := by omega
      rcases endsFrom_round hids hgone hturn (2 * n) with ⟨-, hends⟩ | ⟨hgoes, asked, hrest⟩
      · exact hends
      · rw [hrest]
        refine .cons (ih (k + 1) (by omega) ?_ (by push_cast; omega))
        intro j hj
        rcases Nat.lt_succ_iff_lt_or_eq.mp hj with hj | rfl
        · exact hgone j hj
        · exact hgoes

/-- A run that reaches it is ended by the graph. -/
theorem recursion_rounds (hids : DistinctIds rounds) (hlimit : LimitReached repr spec budget rounds)
    (n : ℕ) : ∀ k, 2 * n + 2 * k = recursionLimit →
      (driveFrom repr spec budget rounds (2 * n) k).2.1 = .recursion := by
  induction n with
  | zero =>
    intro k _
    show (build.drive _ _ 0 _ ⟨stateAfter repr spec rounds k, some .agent⟩).2.1 = _
    rw [StateGraph.drive_recursion]
  | succ n ih =>
    intro k hk
    have hgoes : ∀ j ≤ k, GoesThrough repr spec budget rounds j := by
      intro j hj
      exact hlimit.2 j (by omega)
    have hturn : k < budget.turns := by
      have := hlimit.1
      omega
    show (driveFrom repr spec budget rounds (2 * n + 2) k).2.1 = .recursion
    rcases endsFrom_round hids (fun j hj => hgoes j hj.le) hturn (2 * n) with
      ⟨hnot, -⟩ | ⟨-, asked, hrest⟩
    · exact absurd (hgoes k le_rfl) hnot
    · rw [hrest]
      exact ih (k + 1) (by omega)

theorem EndsBecause.ne_recursion {n : ℕ} {e : GraphEnd AgentError}
    (h : EndsBecause repr spec budget rounds n e) : e ≠ .recursion := by
  cases h <;> simp

/-- **A model that keeps differing is stopped by the turns.** -/
theorem EndsBecause.turns_of_differing {n : ℕ} {e : GraphEnd AgentError}
    (h : EndsBecause repr spec budget rounds n e) (hn : n ≤ budget.turns)
    (hkeeps : KeepsDiffering repr spec budget rounds) :
    n = budget.turns ∧ ∃ detail, e = .raised (.budgetExceeded .turns detail) := by
  cases h with
  | turns hturns => exact ⟨hturns.symm, _, rfl⟩
  | seconds hturn hseconds =>
    have := (hkeeps.answered n hturn).seconds
    omega
  | condenser hturn hraised => exact absurd hraised (hkeeps.answered n hturn).condensed
  | @noCalls k hresponse hcalls =>
    exact absurd hcalls (hkeeps.answered k (by omega)).calls
  | @tokens k detail htokens =>
    have := (hkeeps.answered k (by omega)).tokens
    omega
  | @stuck k text hrepeated htokens =>
    have := hrepeated.1
    exact absurd hrepeated.2.2.1 (hkeeps.different (k - 1) k (by omega) (by omega))
  | @sandbox k i hi hcrashed =>
    obtain ⟨content, hcontent⟩ := (hkeeps.answered k (by omega)).made i hi
    exact absurd (hcrashed.symm.trans hcontent) (by simp)
  | @onCheckpoint k i content hi hunsaved =>
    obtain ⟨text, htext⟩ := (hkeeps.answered k (by omega)).made i hi
    exact absurd (hunsaved.symm.trans htext) (by simp)
  | @model k hraised => exact absurd hraised (hkeeps.answered k (by omega)).response

/-- The graph is at the first round. -/
theorem runNew_eq : runNew repr spec budget rounds =
    driveFrom repr spec budget rounds recursionLimit 0 := by
  rw [runNew, started_eq]
  rfl

/-- The graph's own limit is none of the reasons. -/
theorem not_endsAsStated_of_limit (hids : DistinctIds rounds)
    (hlimit : LimitReached repr spec budget rounds) :
    ¬ EndsAsStated repr spec budget rounds (runNew repr spec budget rounds) := by
  intro hends
  have hrecursion : (runNew repr spec budget rounds).2.1 = .recursion := by
    rw [runNew_eq]
    exact recursion_rounds hids hlimit 100 0 rfl
  exact hends.because.ne_recursion hrecursion

end

/-- **A run on a new thread ends for its stated reasons exactly if it does
not reach the limit of the graph.** -/
theorem endsAsStated_iff (repr : List String → String) (spec : Shared.TaskSpec)
    (budget : Shared.Budget) (rounds : ℕ → Round) (hturns : 0 < budget.turns) (hids : DistinctIds rounds) :
    EndsAsStated repr spec budget rounds (runNew repr spec budget rounds) ↔
      ¬ LimitReached repr spec budget rounds := by
  constructor
  · intro hends hlimit
    exact not_endsAsStated_of_limit hids hlimit hends
  · intro hlimit
    have hends := endsFrom_rounds hids hlimit 100 0 rfl (fun j hj => absurd hj (by omega)) hturns.le
    rw [runNew_eq]
    change EndsFrom _ _ _ _ _ (driveFrom repr spec budget rounds recursionLimit 0) at hends
    obtain ⟨hanswers, hcalls, hbecause, hstuck⟩ := hends
    rw [Nat.zero_add] at hcalls hbecause
    refine ⟨?_, hcalls, hbecause, fun k hk => hstuck k (by rw [Nat.zero_add]; exact hk), ?_⟩
    · rw [hanswers, List.range_eq_range']
    · exact fun hkeeps => hbecause.turns_of_differing hcalls hkeeps

/-- The calls of a model that searches for longer and longer texts. -/
def longerSearch (k : ℕ) : AiToolCall where
  name := "search_code"
  args := [("pattern", .str (.ofList (List.replicate k 'x')))]
  id := "call"

def searchingOn (k : ℕ) : Round where
  agent := { elapsed := 0, response := some { toolCalls := [longerSearch k] } }
  tools _ := .result "[no matches]" true

theorem tokensUsed_searchingOn (k : ℕ) : tokensUsed searchingOn k = 0 := by
  induction k with
  | zero => rfl
  | succ k ih =>
    rw [tokensUsed, ih]
    rfl

theorem namedCalls_searchingOn {j k : ℕ}
    (h : namedCalls (callsOf searchingOn k) = namedCalls (callsOf searchingOn j)) : k = j := by
  have hpattern : String.ofList (List.replicate k 'x') = String.ofList (List.replicate j 'x') := by
    simpa [namedCalls, callsOf, searchingOn, longerSearch, PyValue.sortKeys, PyValue.sortMembers]
      using h
  have hlength := congrArg List.length (String.ofList_injective hpattern)
  rw [List.length_replicate, List.length_replicate] at hlength
  exact hlength

theorem distinctIds_searchingOn : DistinctIds searchingOn := by
  intro j k r r' _ _ hr' hid
  obtain rfl := Option.some.inj hr'
  exact absurd rfl hid

/-- Every round of it goes through, whatever the budget of turns. -/
theorem goesThrough_searchingOn (turns : ℤ) (k : ℕ) :
    GoesThrough plainRepr bugSpec { fullBudget with turns } searchingOn k := by
  have hseconds : (0 : ℤ) ≤ fullBudget.remainingSeconds := by decide
  have htokens : (0 : ℤ) ≤ fullBudget.tokens := by decide
  refine ⟨⟨hseconds, ?_, by simp [searchingOn], ?_, by simp [callsOf, searchingOn], ?_⟩, ?_⟩
  · obtain ⟨pruned, hpruned⟩ := pruneFrom_none
      (toFold ((history plainRepr bugSpec searchingOn k).map (·.message))) 0 0
      ((history plainRepr bugSpec searchingOn k).map (·.message))
    show pruneFrom none _ 0 0 _ ≠ none
    rw [hpruned]
    exact Option.some_ne_none pruned
  · rw [tokensUsed_searchingOn]
    exact htokens
  · exact fun i _ => ⟨"[no matches]", rfl⟩
  · rintro ⟨htwo, -, hone, -⟩
    have := namedCalls_searchingOn hone
    omega

/-- With five turns they stop it. -/
theorem endsAsStated_fiveTurns : EndsAsStated plainRepr bugSpec fullBudget searchingOn
    (runNew plainRepr bugSpec fullBudget searchingOn) :=
  (endsAsStated_iff plainRepr bugSpec fullBudget searchingOn (by decide) distinctIds_searchingOn).mpr
    fun hlimit => absurd hlimit.1 (by decide)

/-- With a hundred the graph does. -/
theorem hundredTurns_not_endsAsStated :
    ¬ ∀ (budget : Shared.Budget) (rounds : ℕ → Round), 1 ≤ budget.turns → budget.turns ≤ 1000 →
      DistinctIds rounds → EndsAsStated plainRepr bugSpec budget rounds
        (runNew plainRepr bugSpec budget rounds) := by
  intro hall
  have hlimit : LimitReached plainRepr bugSpec { fullBudget with turns := 100 } searchingOn :=
    ⟨by decide, fun k _ => goesThrough_searchingOn 100 k⟩
  exact not_endsAsStated_of_limit distinctIds_searchingOn hlimit
    (hall _ _ (by decide) (by decide) distinctIds_searchingOn)

end SelfAgent

end Runtime

end AgentReliability
