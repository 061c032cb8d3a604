import AgentReliability.Common.Machine
import AgentReliability.Common.Meter
import AgentReliability.ControlPlane.Schema
import AgentReliability.Runtime.SelfAgent
/-!
# The agents' loops and their counters

`SelfAgent` counts the tokens of its model calls in the state of its
graph, `InstrumentedMiniModel` in a field of its own. Beside either counter
a meter shows what the calls of the attempt have really come to. The calls
of a fixture run are not reserved anywhere: the counters are all there is.

The answers of the model and of the tools, and the time that passes, are
the inputs of a loop. `DefaultAgent` of mini-swe-agent drives the second
one, and is a parameter.
-/

namespace AgentReliability

namespace Runtime

open ControlPlane

/-! ## The state of the graph -/

/-- `AgentState`, with the node the graph runs next. It goes to the tools
node only with calls to make. -/
structure GraphState extends Thread where
  turn : ℕ := 0
  usedTokens : ℕ := 0
  stuckSignatures : List String := []
  calls_of_tools : next = .tools → danglingCalls messages ≠ []

/-- The content of a tool message. -/
def ToolContent.text : ToolContent → String
  | applied => "[ok] 补丁已应用"
  | skipped => "[skipped] 补丁已应用（反向校验通过）"
  | output text => text
  | cached tool digest => s!"[cached] {tool} 已在中断前完成，结果摘要 {digest}"
  | error text => s!"[error] {text}"

/-- The tool messages among the messages. -/
def toolMessages (messages : List Message) : List (ToolCallId × ToolContent) :=
  messages.filterMap fun
    | .tool id content => some (id, content)
    | _ => none

/-- `PRUNE_KEEP_LAST_TOOL_RESULTS`. -/
def pruneKeepLastToolResults : ℕ := 8

/-- `PRUNE_MIN_CHARS`. -/
def pruneMinChars : ℕ := 1500

/-- The tool messages `prune_messages` folds: all but the last ones, if
they are long. -/
def foldable (messages : List Message) : List ToolCallId :=
  let tools := toolMessages messages
  ((tools.take (tools.length - pruneKeepLastToolResults)).filter fun x =>
    pruneMinChars < x.2.text.length).map (·.1)

/-- The answers to the first of some calls. -/
def answers (calls : List ToolCall) (outputs : List ToolContent) : List Message :=
  List.zipWith (fun c content => .tool c.id content) calls outputs

@[simp] theorem danglingCalls_append_ai (messages : List Message) (calls : List ToolCall) :
    danglingCalls (messages ++ [.ai calls]) = calls := by
  simp [danglingCalls]

/-! ## The condenser -/

structure Condenser where
  cache : List ToolCallId := []
  /-- `_new_tokens`. -/
  newTokens : ℕ := 0
  deriving DecidableEq, Repr

/-- `Condenser.__call__` on the message of a call. Its own call of the
model comes to some tokens, or fails and degrades to the placeholder. -/
def summarize (condensed : ToolCallId → Option ℕ) (s : Condenser × Meter) (id : ToolCallId) :
    Condenser × Meter :=
  if id ∈ s.1.cache then s
  else
    let tokens := (condensed id).getD 0
    ({ cache := s.1.cache ++ [id], newTokens := s.1.newTokens + tokens },
      s.2.start.spend tokens)

/-- The calls of the condenser that `prune_messages` makes. -/
def condenseMessages (condensed : ToolCallId → Option ℕ) (messages : List Message)
    (condenser : Option Condenser) (meter : Meter) : Option Condenser × Meter :=
  match condenser with
  | none => (none, meter)
  | some c =>
    let s := (foldable messages).foldl (summarize condensed) (c, meter)
    (some s.1, s.2)

/-- `take_new_tokens`. -/
def takeNewTokens (condenser : Option Condenser) : ℕ × Option Condenser :=
  ((condenser.map (·.newTokens)).getD 0, condenser.map ({ · with newTokens := 0 }))

/-! ## `SelfAgent` -/

/-- An answer of the model, with the usage it reports. -/
structure Response where
  promptTokens : ℕ
  completionTokens : ℕ
  calls : List ToolCall
  /-- `json.dumps` of the names and the arguments of the calls. -/
  signature : String
  signature_eq : signature = "[]" ↔ calls = []

/-- What an agent node meets. -/
structure NodeInput where
  /-- The whole seconds since the attempt was started. -/
  elapsed : ℕ
  /-- What a call of the condenser comes to. -/
  condensed : ToolCallId → Option ℕ
  /-- `none` where the call of the model raises. -/
  response : Option Response

structure SelfLoop where
  graph : GraphState
  condenser : Option Condenser
  meter : Meter := {}
  raised : Bool := false

/-- `MAX_STUCK_REPEATS`. -/
def maxStuckRepeats : ℕ := 3

/-- The signatures that are kept. -/
def keepSignatures (signatures : List String) (signature : String) : List String :=
  let signatures := signatures ++ [signature]
  signatures.drop (signatures.length - maxStuckRepeats)

/-- The same calls again and again. -/
def stuck (signatures : List String) (signature : String) : Bool :=
  signatures.length = maxStuckRepeats && signatures.all (· = signature) && signature ≠ "[]"

namespace SelfLoop

variable (b : Budget) (l : SelfLoop)

def raise : SelfLoop := { l with raised := true }

/-- The graph has run to its end. -/
def finished : Bool := !l.raised && l.graph.next = .finish

/-- `_agent_node` after the model has answered. -/
def receive (r : Response) : SelfLoop :=
  let (condenseTokens, condenser) := takeNewTokens l.condenser
  let usedTokens := l.graph.usedTokens + r.promptTokens + r.completionTokens + condenseTokens
  let l := { l with condenser, meter := l.meter.spend (r.promptTokens + r.completionTokens) }
  if b.tokens < usedTokens then l.raise
  else
    let signatures := keepSignatures l.graph.stuckSignatures r.signature
    if stuck signatures r.signature then l.raise
    else { l with graph := {
      messages := l.graph.messages ++ [.ai r.calls]
      next := if r.calls = [] then .finish else .tools
      turn := l.graph.turn + 1
      usedTokens
      stuckSignatures := signatures
      calls_of_tools := by
        intro h hcalls
        rw [danglingCalls_append_ai] at hcalls
        rw [if_pos hcalls] at h
        exact absurd h (by decide) } }

/-- `_agent_node` up to the call of the model, which is made. -/
def invoke (i : NodeInput) : SelfLoop :=
  let (condenser, meter) := condenseMessages i.condensed l.graph.messages l.condenser l.meter
  { l with condenser, meter := meter.start }

/-- `_agent_node`. -/
def agentNode (i : NodeInput) : SelfLoop :=
  if b.turns ≤ l.graph.turn then l.raise
  else if b.remainingSeconds < i.elapsed then l.raise
  else
    match i.response with
    | none => (l.invoke i).raise
    | some r => (l.invoke i).receive b r

/-- `_tools_node`. A call that raises ends it: the sandbox has crashed, or
a checkpoint could not be saved. -/
def toolsNode (outputs : List ToolContent) : SelfLoop :=
  let calls := danglingCalls l.graph.messages
  if outputs.length < calls.length then l.raise
  else { l with graph := {
    l.graph with
    messages := l.graph.messages ++ answers calls outputs
    next := .agent
    calls_of_tools := fun h => absurd h (by decide) } }

end SelfLoop

/-! ## `InstrumentedMiniModel` -/

/-- What a query of the model raises. -/
inductive QueryError where
  | formatError
  | budgetExceeded
  /-- A rate limit, or any other exception of the provider. -/
  | other
  deriving DecidableEq, Repr

/-- What a query meets: an answer with its usage, an answer without a valid
call of the `bash` tool, or an exception. -/
inductive MiniAnswer where
  | message (promptTokens completionTokens : ℕ)
  | formatError (tokens : ℕ)
  | raised
  deriving DecidableEq, Repr

structure MiniLoop where
  priorTokens : ℕ
  attemptTokens : ℕ := 0
  turn : ℕ := 0
  /-- How each query of the attempt ended, `none` for a message. -/
  history : List (Option QueryError) := []
  meter : Meter := {}
  raised : Bool := false
  submitted : Bool := false
  deriving DecidableEq, Repr

namespace MiniLoop

variable (b : Budget) (l : MiniLoop)

/-- `used_tokens_total`. -/
def usedTokensTotal : ℕ := l.priorTokens + l.attemptTokens

/-- `InstrumentedMiniModel.query`. -/
def query (x : MiniAnswer) : MiniLoop × Option QueryError :=
  let l := { l with meter := l.meter.start }
  match x with
  | .raised => (l, some .other)
  | .formatError tokens =>
    ({ l with turn := l.turn + 1, meter := l.meter.spend tokens }, some .formatError)
  | .message promptTokens completionTokens =>
    let l := { l with
      attemptTokens := l.attemptTokens + (promptTokens + completionTokens)
      turn := l.turn + 1
      meter := l.meter.spend (promptTokens + completionTokens) }
    (l, if b.tokens < l.usedTokensTotal then some .budgetExceeded else none)

end MiniLoop

/-- `DefaultAgent.run`, as far as it decides whether the model is asked once
more: by its two limits, how the queries so far have ended, and the time. -/
structure DefaultAgent where
  asks : (stepLimit wallTimeLimitSeconds : ℕ) → List (Option QueryError) → (elapsed : ℕ) → Bool
  /-- What a query raised does not end the run. -/
  catches : QueryError → Bool

/-- **What the adapter relies on**: a step limit is the number of queries,
the first answer without a call is sent back to the model while the limits
allow it, and an exceeded budget ends the run. -/
structure DefaultAgent.Documented (d : DefaultAgent) : Prop where
  stops : ∀ {stepLimit wallTime elapsed : ℕ} {history : List (Option QueryError)},
    0 < stepLimit → stepLimit ≤ history.length → d.asks stepLimit wallTime history elapsed = false
  asks_first : ∀ {stepLimit wallTime : ℕ}, 0 < stepLimit → d.asks stepLimit wallTime [] 0
  retries : ∀ {stepLimit wallTime : ℕ}, 1 < stepLimit →
    d.asks stepLimit wallTime [some .formatError] 0
  catches_formatError : d.catches .formatError
  raises_budgetExceeded : d.catches .budgetExceeded = false

namespace MiniLoop

variable (d : DefaultAgent) (b : Budget) (l : MiniLoop)

/-- One round of `DefaultAgent.run`. A run that one of its limits ends is
raised by `MiniSWEAgentAdapter.execute`. -/
def round (elapsed : ℕ) (x : MiniAnswer) : MiniLoop :=
  if d.asks b.turns b.remainingSeconds l.history elapsed then
    let (l, outcome) := l.query b x
    let l := { l with history := l.history ++ [outcome] }
    match outcome with
    | none => l
    | some e => if d.catches e then l else { l with raised := true }
  else { l with raised := true }

end MiniLoop

/-! ## An attempt -/

/-- **What the agent of an attempt is started with**: a command of a
fixture run, the mode of the context, the thread it finds, what the replay
of its dangling calls and the checkpoint give, and whether the model always
answers with the call it is asked for. -/
structure AgentAttempt where
  command : RunCommand
  fixture : command.snapshot = none
  valid : command.Valid
  /-- `CONTEXT_MODE` is `condense`. -/
  condense : Bool
  thread : GraphState
  /-- The answers of the replay, which raises if there are too few. -/
  replayed : List ToolContent
  feedback : Option String
  /-- Every answer carries a valid call of the `bash` tool. -/
  wellFormed : Bool

inductive AgentLoop where
  | self (l : SelfLoop)
  | mini (l : MiniLoop)

/-- The inputs of either loop. -/
inductive AgentInput where
  | node (i : NodeInput)
  | tools (outputs : List ToolContent)
  | query (elapsed : ℕ) (x : MiniAnswer)
  /-- The calls of a message submit the task: `DefaultAgent.run` returns. -/
  | submit

namespace AgentAttempt

variable (a : AgentAttempt)

/-- The tokens the run had used when the command was sent. -/
def priorTokens : ℕ := a.command.budget.tokens - a.command.budget.remainingTokens

/-- `RealExecutor.execute`: whether the agent is resumed. -/
def resume : Bool := a.command.type = .resumeRun && a.command.checkpointId.isSome

/-- `SelfAgent.run`, up to the graph. -/
def selfStart : SelfLoop :=
  let condenser := if a.condense then some {} else none
  let messages := a.thread.messages
  if a.resume ∧ messages ≠ [] then
    let calls := danglingCalls messages
    let inject := answers calls a.replayed ++ ((a.feedback.filter (· ≠ "")).map Message.human).toList
    if a.replayed.length < calls.length then { graph := a.thread, condenser, raised := true }
    else if inject = [] then { graph := a.thread, condenser }
    else {
      graph := { a.thread with
        messages := messages ++ inject
        next := .agent
        calls_of_tools := fun h => absurd h (by decide) }
      condenser }
  else {
    graph := {
      messages := messages ++ initialMessages
      next := .agent
      calls_of_tools := fun h => absurd h (by decide) }
    condenser }

/-- `AgentAdapter.execute`, up to the loop. -/
def start : AgentLoop :=
  match a.command.agentKind with
  | .selfLanggraph => .self a.selfStart
  | .miniSwe => .mini { priorTokens := a.priorTokens }

end AgentAttempt

/-- One input. What is not possible in a state does nothing. -/
def AgentLoop.step (d : DefaultAgent) (b : Budget) : AgentLoop → AgentInput → AgentLoop
  | .self l, .node i =>
    if l.raised = false ∧ l.graph.next = .agent then .self (l.agentNode b i) else .self l
  | .self l, .tools outputs =>
    if l.raised = false ∧ l.graph.next = .tools then .self (l.toolsNode outputs) else .self l
  | .mini l, .query elapsed x =>
    if l.raised = false ∧ l.submitted = false then .mini (l.round d b elapsed x) else .mini l
  | .mini l, .submit =>
    if l.raised = false ∧ l.history.getLast? = some none then .mini { l with submitted := true }
    else .mini l
  | l, _ => l

/-- A loop and the inputs it meets. -/
def AgentLoop.machine (d : DefaultAgent) (b : Budget) (l : AgentLoop) :
    Machine AgentLoop AgentInput where
  init := l
  step := AgentLoop.step d b

@[simp] theorem AgentLoop.machine_step (d : DefaultAgent) (b : Budget) (l : AgentLoop) :
    (AgentLoop.machine d b l).step = AgentLoop.step d b := rfl

@[simp] theorem AgentLoop.machine_init (d : DefaultAgent) (b : Budget) (l : AgentLoop) :
    (AgentLoop.machine d b l).init = l := rfl

/-- The loop of an attempt. -/
def AgentAttempt.machine (d : DefaultAgent) (a : AgentAttempt) : Machine AgentLoop AgentInput :=
  AgentLoop.machine d a.command.budget a.start

namespace AgentLoop

def meter : AgentLoop → Meter
  | self l => l.meter
  | mini l => l.meter

/-- What the agent reports as used. -/
def usedTokens : AgentLoop → ℕ
  | self l => l.graph.usedTokens
  | mini l => l.usedTokensTotal

/-- The adapter returns, and the usage is reported. -/
def finished : AgentLoop → Bool
  | self l => l.finished
  | mini l => l.submitted

end AgentLoop

/-- An answer that lacks the call it was asked for. -/
def AgentInput.isFormatError : AgentInput → Bool
  | query _ (.formatError _) => true
  | _ => false

/-- The inputs an attempt may meet. -/
def AgentAttempt.Meets (a : AgentAttempt) (inputs : List AgentInput) : Prop :=
  a.wellFormed → ∀ x ∈ inputs, x.isFormatError = false

/-! ## What the counters are worth -/

/-- The condenser counts what its calls come to. -/
theorem newTokens_summarize (condensed : ToolCallId → Option ℕ) (ids : List ToolCallId)
    (s : Condenser × Meter) :
    (ids.foldl (summarize condensed) s).2.spent + s.1.newTokens =
      s.2.spent + (ids.foldl (summarize condensed) s).1.newTokens := by
  induction ids generalizing s with
  | nil => rfl
  | cons id ids ih =>
    have hone : (summarize condensed s id).2.spent + s.1.newTokens =
        s.2.spent + (summarize condensed s id).1.newTokens := by
      unfold summarize
      split
      · rfl
      · simp only [Meter.spend_spent, Meter.start_spent]
        omega
    have hrest := ih (summarize condensed s id)
    rw [List.foldl_cons]
    omega

theorem newTokens_condenseMessages (condensed : ToolCallId → Option ℕ) (messages : List Message)
    (condenser : Option Condenser) (meter : Meter) :
    (condenseMessages condensed messages condenser meter).2.spent + (takeNewTokens condenser).1 =
      meter.spent + (takeNewTokens (condenseMessages condensed messages condenser meter).1).1 := by
  cases condenser with
  | none => rfl
  | some c => exact newTokens_summarize condensed (foldable messages) (c, meter)

namespace SelfLoop

variable {b : Budget} {l : SelfLoop} {base : ℕ}

/-- **The counter is exact**: it shows what it showed at first and what the
calls since have come to. -/
structure Exact (base : ℕ) (l : SelfLoop) : Prop where
  settled : (takeNewTokens l.condenser).1 = 0
  usedTokens : l.graph.usedTokens = base + l.meter.spent

/-- **What an agent node can come to.** It raises before the model is
called, it raises after, or the counter has stayed within the budget. -/
inductive NodeOutcome (b : Budget) (l : SelfLoop) (i : NodeInput) : SelfLoop → Prop
  | stopped : NodeOutcome b l i l.raise
  | raised {m : SelfLoop} (hturn : l.graph.turn < b.turns) (hgraph : m.graph = l.graph)
      (hmeter : m.meter.starts = (l.invoke i).meter.starts) (hraised : m.raised) :
      NodeOutcome b l i m
  | answered {m : SelfLoop} {r : Response} (hturn : l.graph.turn < b.turns)
      (hresponse : i.response = some r)
      (hnext : m.graph.next = if r.calls = [] then .finish else .tools)
      (hturns : m.graph.turn = l.graph.turn + 1)
      (hused : m.graph.usedTokens = l.graph.usedTokens + (r.promptTokens + r.completionTokens) +
        (takeNewTokens (l.invoke i).condenser).1)
      (hbudget : m.graph.usedTokens ≤ b.tokens)
      (hmeter : m.meter = (l.invoke i).meter.spend (r.promptTokens + r.completionTokens))
      (hcondenser : m.condenser = (takeNewTokens (l.invoke i).condenser).2)
      (hraised : m.raised = l.raised) : NodeOutcome b l i m

theorem takeNewTokens_settled (condenser : Option Condenser) :
    (takeNewTokens (takeNewTokens condenser).2).1 = 0 := by
  cases condenser <;> rfl

theorem agentNode_outcome (i : NodeInput) : NodeOutcome b l i (l.agentNode b i) := by
  unfold agentNode
  split
  · exact .stopped
  · rename_i hturn
    split
    · exact .stopped
    · split
      · exact .raised (by omega) rfl rfl rfl
      · rename_i r hr
        unfold receive
        simp only
        split
        · exact .raised (by omega) rfl rfl rfl
        · rename_i hused
          split
          · exact .raised (by omega) rfl rfl rfl
          · refine .answered (by omega) hr rfl rfl ?_ (Nat.le_of_not_lt hused) rfl rfl
              rfl
            change l.graph.usedTokens + r.promptTokens + r.completionTokens + _ = _
            omega

/-- A node that does not raise keeps the counter exact. -/
theorem Exact.agentNode (h : l.Exact base) {i : NodeInput}
    (hraised : (l.agentNode b i).raised = false) : (l.agentNode b i).Exact base := by
  have houtcome := agentNode_outcome (b := b) (l := l) i
  generalize l.agentNode b i = m at houtcome hraised ⊢
  cases houtcome with
  | stopped => exact absurd hraised (by simp [SelfLoop.raise])
  | raised _ _ _ hr => exact absurd hraised (by simp [hr])
  | answered _ _ _ _ hused _ hmeter hcondensed _ =>
    refine ⟨by rw [hcondensed]; exact takeNewTokens_settled _, ?_⟩
    have hnew := newTokens_condenseMessages i.condensed l.graph.messages l.condenser l.meter
    have hmeter' : (l.invoke i).meter.spent =
        (condenseMessages i.condensed l.graph.messages l.condenser l.meter).2.spent := rfl
    have hcondenser : (l.invoke i).condenser =
        (condenseMessages i.condensed l.graph.messages l.condenser l.meter).1 := rfl
    rw [hused, hmeter, Meter.spend_spent, hcondenser, hmeter', h.usedTokens]
    have := h.settled
    omega

/-! ### The steps of the graph -/

variable {d : DefaultAgent}

theorem step_node {i : NodeInput} (hraised : l.raised = false) (hnext : l.graph.next = .agent) :
    AgentLoop.step d b (.self l) (.node i) = .self (l.agentNode b i) :=
  if_pos ⟨hraised, hnext⟩

theorem step_tools {outputs : List ToolContent} (hraised : l.raised = false)
    (hnext : l.graph.next = .tools) :
    AgentLoop.step d b (.self l) (.tools outputs) = .self (l.toolsNode outputs) :=
  if_pos ⟨hraised, hnext⟩

/-- **What a step of the graph can be**: an agent node, a tools node, or
nothing. -/
theorem step_cases (x : AgentInput) :
    (∃ i, l.raised = false ∧ l.graph.next = .agent ∧
      AgentLoop.step d b (.self l) x = .self (l.agentNode b i)) ∨
    (∃ outputs, l.raised = false ∧ l.graph.next = .tools ∧
      AgentLoop.step d b (.self l) x = .self (l.toolsNode outputs)) ∨
    AgentLoop.step d b (.self l) x = .self l := by
  cases x with
  | node i =>
    by_cases h : l.raised = false ∧ l.graph.next = .agent
    · exact .inl ⟨i, h.1, h.2, if_pos h⟩
    · exact .inr (.inr (if_neg h))
  | tools outputs =>
    by_cases h : l.raised = false ∧ l.graph.next = .tools
    · exact .inr (.inl ⟨outputs, h.1, h.2, if_pos h⟩)
    · exact .inr (.inr (if_neg h))
  | query elapsed x => exact .inr (.inr rfl)
  | submit => exact .inr (.inr rfl)

/-- A tools node calls no model: it raises, or answers the calls. -/
theorem toolsNode_frame (outputs : List ToolContent) :
    (l.toolsNode outputs).meter = l.meter ∧ (l.toolsNode outputs).condenser = l.condenser ∧
      (l.toolsNode outputs).graph.turn = l.graph.turn ∧
      (l.toolsNode outputs).graph.usedTokens = l.graph.usedTokens ∧
      (l.raised = true → (l.toolsNode outputs).raised = true) := by
  unfold toolsNode
  simp only
  split
  · exact ⟨rfl, rfl, rfl, rfl, fun _ => rfl⟩
  · exact ⟨rfl, rfl, rfl, rfl, id⟩

/-- The counter of a node is not set back. -/
theorem usedTokens_le_agentNode (i : NodeInput) :
    l.graph.usedTokens ≤ (l.agentNode b i).graph.usedTokens := by
  have houtcome := agentNode_outcome (b := b) (l := l) i
  generalize l.agentNode b i = m at houtcome ⊢
  cases houtcome with
  | stopped => exact Nat.le_refl _
  | raised _ hgraph _ _ => exact Nat.le_of_eq (by rw [hgraph])
  | answered _ _ _ _ hused _ _ _ _ => omega

theorem Exact.toolsNode (h : l.Exact base) (outputs : List ToolContent) :
    (l.toolsNode outputs).Exact base := by
  obtain ⟨hmeter, hcondenser, -, hused, -⟩ := l.toolsNode_frame outputs
  refine ⟨?_, ?_⟩
  · rw [hcondenser]
    exact h.settled
  · rw [hused, hmeter]
    exact h.usedTokens

end SelfLoop

namespace MiniLoop

variable {d : DefaultAgent} {b : Budget} {l : MiniLoop}

/-- What a query does to the two counters. -/
theorem query_frame (x : MiniAnswer) :
    (l.query b x).1.priorTokens = l.priorTokens ∧
      l.attemptTokens ≤ (l.query b x).1.attemptTokens ∧
      ((∀ tokens, x ≠ .formatError tokens) → l.meter.spent = l.attemptTokens →
        (l.query b x).1.meter.spent = (l.query b x).1.attemptTokens) := by
  cases x with
  | message promptTokens completionTokens =>
    refine ⟨rfl, Nat.le_add_right _ _, fun _ h => ?_⟩
    change l.meter.spent + _ = l.attemptTokens + _
    rw [h]
  | formatError tokens => exact ⟨rfl, Nat.le_refl _, fun h => absurd rfl (h tokens)⟩
  | raised => exact ⟨rfl, Nat.le_refl _, fun _ h => h⟩

theorem round_frame (elapsed : ℕ) (x : MiniAnswer) :
    (l.round d b elapsed x).priorTokens = l.priorTokens ∧
      l.attemptTokens ≤ (l.round d b elapsed x).attemptTokens ∧
      ((∀ tokens, x ≠ .formatError tokens) → l.meter.spent = l.attemptTokens →
        (l.round d b elapsed x).meter.spent = (l.round d b elapsed x).attemptTokens) := by
  unfold MiniLoop.round
  split
  · have hquery := query_frame (b := b) (l := l) x
    simp only
    split
    · exact hquery
    · split <;> exact hquery
  · exact ⟨rfl, Nat.le_refl _, fun _ h => h⟩

end MiniLoop

namespace AgentLoop

variable {d : DefaultAgent} {b : Budget} {l : AgentLoop} {base : ℕ}

/-- **A counter is not set back.** -/
theorem usedTokens_le_step (x : AgentInput) : l.usedTokens ≤ (l.step d b x).usedTokens := by
  cases l with
  | self l =>
    rcases SelfLoop.step_cases (d := d) (b := b) (l := l) x with
      ⟨i, -, -, hx⟩ | ⟨outputs, -, -, hx⟩ | hx
    · rw [hx]
      exact SelfLoop.usedTokens_le_agentNode i
    · rw [hx]
      exact Nat.le_of_eq (l.toolsNode_frame outputs).2.2.2.1.symm
    · exact Nat.le_of_eq (by rw [hx])
  | mini l =>
    cases x with
    | node i => exact Nat.le_refl _
    | tools outputs => exact Nat.le_refl _
    | query elapsed x =>
      unfold step
      simp only
      split
      · obtain ⟨hprior, hle, -⟩ := MiniLoop.round_frame (d := d) (b := b) (l := l) elapsed x
        change l.priorTokens + l.attemptTokens ≤ _ + _
        omega
      · exact Nat.le_refl _
    | submit =>
      unfold step
      simp only
      split <;> exact Nat.le_refl _

/-- **A loop that has finished makes no more calls.** -/
theorem step_of_finished (h : l.finished = true) (x : AgentInput) : l.step d b x = l := by
  cases l with
  | self l =>
    have hnext : l.graph.next = .finish := by
      simp only [finished, SelfLoop.finished, Bool.and_eq_true, decide_eq_true_eq] at h
      exact h.2
    rcases SelfLoop.step_cases (d := d) (b := b) (l := l) x with
      ⟨i, -, hagent, -⟩ | ⟨outputs, -, htools, -⟩ | hx
    · exact absurd (hnext.symm.trans hagent) (by decide)
    · exact absurd (hnext.symm.trans htools) (by decide)
    · exact hx
  | mini l =>
    have hsubmitted : l.submitted = true := h
    cases x with
    | node i => rfl
    | tools outputs => rfl
    | query elapsed x => exact if_neg fun hlive => by simp [hsubmitted] at hlive
    | submit =>
      unfold step
      simp only
      split
      · rw [← hsubmitted]
      · rfl

/-- **The counter is exact**, unless the loop has raised: it shows what it
showed at first and what the calls since have come to. -/
def Exact (base : ℕ) : AgentLoop → Prop
  | self l => l.raised = false → l.Exact base
  | mini l => l.priorTokens = base ∧ l.meter.spent = l.attemptTokens

theorem Exact.step (h : l.Exact base) {x : AgentInput} (hx : x.isFormatError = false) :
    (l.step d b x).Exact base := by
  cases l with
  | self l =>
    rcases SelfLoop.step_cases (d := d) (b := b) (l := l) x with
      ⟨i, hraised, -, hx⟩ | ⟨outputs, hraised, -, hx⟩ | hx
    · rw [hx]
      exact fun hm => (h hraised).agentNode hm
    · rw [hx]
      exact fun _ => (h hraised).toolsNode outputs
    · rw [hx]
      exact h
  | mini l =>
    obtain ⟨hbase, hspent⟩ := h
    cases x with
    | node i => exact ⟨hbase, hspent⟩
    | tools outputs => exact ⟨hbase, hspent⟩
    | query elapsed answer =>
      unfold AgentLoop.step
      simp only
      split
      · obtain ⟨hprior, -, hround⟩ :=
          MiniLoop.round_frame (d := d) (b := b) (l := l) elapsed answer
        refine ⟨hprior.trans hbase, hround (fun tokens h => ?_) hspent⟩
        rw [h] at hx
        exact absurd hx (by simp [AgentInput.isFormatError])
      · exact ⟨hbase, hspent⟩
    | submit =>
      unfold AgentLoop.step
      simp only
      split <;> exact ⟨hbase, hspent⟩

/-- What a finished loop reports covers what it has used. -/
theorem Exact.usedTokens (h : l.Exact base) (hfinished : l.finished = true) :
    l.usedTokens = base + l.meter.spent := by
  cases l with
  | self l =>
    simp only [finished, SelfLoop.finished, Bool.and_eq_true, Bool.not_eq_true'] at hfinished
    exact (h hfinished.1).usedTokens
  | mini l =>
    obtain ⟨hbase, hspent⟩ := h
    change l.priorTokens + l.attemptTokens = base + l.meter.spent
    omega

end AgentLoop

/-! ### The loop an attempt starts with -/

/-- The loop an attempt of `SelfAgent` starts with. -/
theorem selfStart_new (a : AgentAttempt) :
    a.selfStart.meter = {} ∧ (a.selfStart.condenser = none ∨ a.selfStart.condenser = some {}) ∧
      (a.selfStart.raised = false → a.selfStart.graph.next ≠ .tools) := by
  have hcondenser : ∀ c : Option Condenser, c = (if a.condense then some {} else none) →
      c = none ∨ c = some {} := by
    rintro c rfl
    cases a.condense
    · exact .inl rfl
    · exact .inr rfl
  unfold AgentAttempt.selfStart
  simp only
  split
  · split
    · exact ⟨rfl, hcondenser _ rfl, fun h => absurd h (by simp)⟩
    · rename_i hanswered
      split
      · rename_i hinject
        refine ⟨rfl, hcondenser _ rfl, fun _ htools => ?_⟩
        -- Dangling calls would have been answered, so there are none.
        have hcalls := a.thread.calls_of_tools htools
        have hanswers : answers (danglingCalls a.thread.messages) a.replayed = [] :=
          (List.append_eq_nil_iff.mp hinject).1
        obtain ⟨c, calls, hc⟩ := List.exists_cons_of_ne_nil hcalls
        rw [hc] at hanswers hanswered
        cases hreplayed : a.replayed with
        | nil => simp [hreplayed] at hanswered
        | cons content contents => simp [hreplayed, answers] at hanswers
      · exact ⟨rfl, hcondenser _ rfl, fun _ h => Node.noConfusion h⟩
  · exact ⟨rfl, hcondenser _ rfl, fun _ h => Node.noConfusion h⟩

theorem exact_start (a : AgentAttempt) : a.start.Exact a.start.usedTokens := by
  unfold AgentAttempt.start
  cases a.command.agentKind with
  | selfLanggraph =>
    obtain ⟨hnew, hcondenser, -⟩ := selfStart_new a
    refine fun _ => ⟨?_, ?_⟩
    · rcases hcondenser with h | h <;> rw [h] <;> rfl
    · rw [hnew]
      rfl
  | miniSwe => exact ⟨rfl, rfl⟩

end Runtime

end AgentReliability
