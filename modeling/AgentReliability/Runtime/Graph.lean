import AgentReliability.Common.Machine
import AgentReliability.Common.StateGraph
import AgentReliability.Runtime.Conversation
import AgentReliability.Shared.RunCommand
import Mathlib.Data.List.DropRight
/-!
# The graph of the agent

`SelfAgent`: the agent node asks the model, the tools node makes the calls of
its answer, and the thread is persisted after each of them. An attempt can
stop anywhere. One that resumes answers the calls that were left open, in
the name of the tools node, and goes on with the thread; one that starts
applies its initial state to whatever the thread has.
-/

namespace AgentReliability

namespace Runtime

namespace SelfAgent

/-! ## The state -/

structure AgentState where
  messages : List ThreadMessage := []
  turn : ℤ := 0
  usedTokens : ℤ := 0
  stuckSignatures : List String := []
  done : Bool := false

/-- The texts of the messages, without their ids. -/
def AgentState.conversation (s : AgentState) : List BaseMessage := s.messages.map (·.message)

/-- What is written to the channels: the messages are added, every other
value replaces the one there is. -/
structure StateUpdate where
  messages : List ThreadMessage
  turn : Option ℤ := none
  usedTokens : Option ℤ := none
  stuckSignatures : Option (List String) := none
  done : Option Bool := none

def AgentState.reduce (s : AgentState) (u : StateUpdate) : AgentState where
  messages := addMessages s.messages u.messages
  turn := u.turn.getD s.turn
  usedTokens := u.usedTokens.getD s.usedTokens
  stuckSignatures := u.stuckSignatures.getD s.stuckSignatures
  done := u.done.getD s.done

inductive GraphNode where
  | agent
  | tools
  deriving DecidableEq, Repr

/-- `_build`. -/
def build : StateGraph AgentState StateUpdate GraphNode where
  reduce := AgentState.reduce
  entry := .agent
  next
    | .agent, s => if s.done then none else some .tools
    | .tools, _ => some .agent

abbrev AgentThread := GraphThread AgentState GraphNode

/-! ## The agent node -/

inductive BudgetKind where
  | tokens
  | seconds
  | turns
  deriving DecidableEq, Repr

/-- What a node raises. -/
inductive AgentError where
  | budgetExceeded (kind : BudgetKind) (detail : String)
  | agentStuck (text : String)
  | sandboxCrashed
  /-- The model raised, or that of the condenser. -/
  | model
  | onCheckpoint
  /-- The last message is not of the model. -/
  | assertion
  deriving DecidableEq, Repr

/-- `MAX_STUCK_REPEATS`. -/
def maxStuckRepeats : ℕ := 3

/-- A response of the model, with what `usage_tokens` reads of it. -/
structure ModelResponse where
  id : Option String := none
  content : MessageContent := .text ""
  toolCalls : List AiToolCall
  promptTokens : ℤ := 0
  completionTokens : ℤ := 0

/-- What an agent node meets. -/
structure AgentMeets where
  /-- The whole seconds since the attempt was started. -/
  elapsed : ℤ
  condense : Option Condense := none
  /-- `take_new_tokens`. -/
  condenseTokens : ℤ := 0
  /-- There is none where the model raises. -/
  response : Option ModelResponse

/-- A call of the model. -/
structure ModelCall where
  asked : List BaseMessage
  answer : Option ModelResponse

section

variable (budget : Shared.Budget) (s : AgentState)

/-- `_agent_node` up to the call of the model, and what it is asked. -/
def asks (x : AgentMeets) : Except AgentError (List BaseMessage) :=
  if budget.turns ≤ s.turn then
    .error (.budgetExceeded .turns (toString s.turn ++ "/" ++ toString budget.turns))
  else if budget.remainingSeconds < x.elapsed then
    .error (.budgetExceeded .seconds
      (toString x.elapsed ++ "s/" ++ toString budget.remainingSeconds ++ "s"))
  else
    match pruneMessages x.condense s.conversation with
    | none => .error .model
    | some messages => .ok messages

/-- `json.dumps` of the names and the arguments of the calls. -/
def signature (calls : List AiToolCall) : String :=
  (PyValue.list (calls.map fun call => .list [.str call.name, .dict call.args])).dumps

/-- `used_tokens` after a response. -/
def usedAfter (x : AgentMeets) (r : ModelResponse) : ℤ :=
  s.usedTokens + r.promptTokens + r.completionTokens + x.condenseTokens

/-- The last signatures, after a response. -/
def signaturesAfter (r : ModelResponse) : List String :=
  (s.stuckSignatures ++ [signature r.toolCalls]).rtake maxStuckRepeats

/-- The calls of a response are those of the two before. -/
def Stuck (signatures : List String) (r : ModelResponse) : Prop :=
  signatures.length = maxStuckRepeats ∧ signatures.eraseDups.length = 1 ∧ signature r.toolCalls ≠ "[]"

instance (signatures : List String) (r : ModelResponse) : Decidable (Stuck signatures r) :=
  inferInstanceAs (Decidable (_ ∧ _ ∧ _))

/-- What the agent node returns. -/
def responseUpdate (x : AgentMeets) (r : ModelResponse) : StateUpdate where
  messages := [{ id := r.id, message := .ai r.content r.toolCalls }]
  turn := some (s.turn + 1)
  usedTokens := some (usedAfter s x r)
  stuckSignatures := some (signaturesAfter s r)
  done := some r.toolCalls.isEmpty

/-- `_agent_node` after the call of the model. -/
def receives (x : AgentMeets) (r : ModelResponse) : Except AgentError StateUpdate :=
  if budget.tokens < usedAfter s x r then
    .error (.budgetExceeded .tokens
      (toString (usedAfter s x r) ++ "/" ++ toString budget.tokens))
  else if Stuck (signaturesAfter s r) r then
    .error (.agentStuck ("连续 " ++ toString maxStuckRepeats ++ " 轮重复工具调用: " ++
      String.ofList ((signature r.toolCalls).toList.take 200)))
  else .ok (responseUpdate s x r)

/-- `_agent_node`. -/
def agentNode (x : AgentMeets) : List ModelCall × Except AgentError StateUpdate :=
  match asks budget s x with
  | .error e => ([], .error e)
  | .ok asked => ([⟨asked, x.response⟩],
      match x.response with
      | none => .error .model
      | some r => receives budget s x r)

/-! ## The tools node -/

/-- What a tool call of the node meets. -/
inductive ToolMeets where
  /-- `_dispatch_tool` returned, and `on_checkpoint` returned or raised. -/
  | result (content : String) (saved : Bool)
  | crashed

/-- The loop of `_tools_node`, from a call on. -/
def toolsOutputs (meets : ℕ → ToolMeets) : ℕ → List AiToolCall → Except AgentError (List ThreadMessage)
  | _, [] => .ok []
  | i, call :: calls =>
    match meets i with
    | .crashed => .error .sandboxCrashed
    | .result _ false => .error .onCheckpoint
    | .result content true => do
      let outputs ← toolsOutputs meets (i + 1) calls
      .ok ({ message := .tool (.text content) call.id } :: outputs)

/-- `_tools_node`. -/
def toolsNode (meets : ℕ → ToolMeets) : Except AgentError StateUpdate :=
  match s.conversation.getLast? with
  | some (.ai _ calls) => do
    let outputs ← toolsOutputs meets 0 calls
    .ok { messages := outputs }
  | _ => .error .assertion

end

/-! ## A run -/

/-- `SYSTEM_PROMPT`. -/
def systemPrompt : String :=
  "你是一个自动代码修复 Agent，在隔离沙箱中工作。流程要求：
1. diagnose：先用 search_code 定位相关代码的文件与行号，再用 read_file 的
   start_line/end_line 读取目标区间；
2. plan：简述修复方案（一两句话即可）；
3. edit：用 apply_patch 提交 unified diff（上下文行必须与原文件精确一致）；
4. test：用 run_command 运行任务给出的测试命令验证。
上下文纪律（重要，token 预算有限）：
- 绝不整读大文件：先 search_code 拿到行号，再按 100-200 行的窗口读取；
- read_file 输出带 `行号|` 前缀，仅用于定位——写 diff 时绝不要把行号前缀
  带进补丁内容；
- 较早轮次的工具输出会被折叠，需要时用行范围重新读取。
约束：只修改任务允许的路径；绝不修改测试文件；测试全部通过后输出 FINISH。
节约轮次：不要反复读同一文件或用 run_command 探索目录结构，
诊断信息足够后立即动手修改。
"

section

-- `repr` of a list of texts
variable (repr : List String → String)

/-- `build_task_prompt`. -/
def buildTaskPrompt (spec : Shared.TaskSpec) : String :=
  let layout :=
    if spec.workdir ∈ ["", "."] then
      "仓库布局: 单体仓库，仓库根即工作目录。\n" ++
      "路径口径: 所有工具（read_file / search_code / apply_patch / run_command）" ++
      "统一以仓库根为基准。\n" ++
      "下方给出的测试命令原样执行即可（支持前导 KEY=VALUE 环境变量）。\n"
    else
      "仓库布局: monorepo，本任务的包目录是 " ++ spec.workdir ++ "/（含 src/ 与 tests/）。\n" ++
      "路径口径（重要，两套工具口径不同）:\n" ++
      "- read_file / search_code / apply_patch 的 path 一律相对仓库根，" ++
      "例如 " ++ spec.workdir ++ "/src/xxx.py，diff 头也用该口径；\n" ++
      "- run_command 固定在 " ++ spec.workdir ++ "/ 下执行，命令里写包内相对路径" ++
      "（下方给出的测试命令已按此口径，原样执行即可，不要加 cd 或改路径）。\n"
  "任务: " ++ spec.description ++ "\n" ++ layout ++
    "允许修改的路径（相对仓库根）: " ++ repr spec.allowedPaths ++ "\n" ++
    "静态检查: " ++ repr spec.staticCheck ++ "\n" ++
    "定向测试（必须让它通过）: " ++ repr spec.failToPass ++ "\n" ++
    "回归测试: " ++ repr spec.passToPass ++ "\n"

variable (spec : Shared.TaskSpec)

/-- The messages of `initial_state`: the system prompt and the task prompt. -/
def initialMessages : List BaseMessage :=
  [.system (.text systemPrompt), .human (.text (buildTaskPrompt repr spec))]

/-- `initial_state`. -/
def initialState : StateUpdate where
  messages := (initialMessages repr spec).map fun message => { message }
  turn := some 0
  usedTokens := some 0
  stuckSignatures := some []
  done := some false

/-- The answers to the calls that were left open; there are none if the
sandbox crashes. -/
def replay (answers : ℕ → Option String) : ℕ → List AiToolCall → Option (List ThreadMessage)
  | _, [] => some []
  | i, call :: calls => do
    let content ← answers i
    let inject ← replay answers (i + 1) calls
    some ({ message := .tool (.text content) call.id } :: inject)

/-- `run`, of a thread that has messages: what is injected is written in the
name of the tools node. -/
def resumed (t : AgentThread) (feedback : Option String) (answers : ℕ → Option String) :
    Option AgentThread := do
  let inject ← replay answers 0 (danglingToolCalls t.values.conversation)
  let inject := inject ++
    ((feedback.filter (· ≠ "")).map fun text => ⟨none, .human (.text text)⟩).toList
  if inject.isEmpty then some t
  else some (build.write .tools t { messages := inject, done := some false })

/-- `run` with an input: the initial state is applied to the thread. -/
def started (t : AgentThread) : AgentThread := build.input t (initialState repr spec)

end

/-! ## A start -/

section

variable {repr : List String → String} {spec : Shared.TaskSpec} {budget : Shared.Budget}
  {t : AgentThread}

/-- The messages of the thread are still there after a start. -/
theorem started_conversation (t : AgentThread) : (started repr spec t).values.conversation =
    t.values.conversation ++ initialMessages repr spec := by
  have hnone : ∀ m ∈ (initialState repr spec).messages, m.id = none := by
    intro m hm
    obtain ⟨message, -, rfl⟩ := List.mem_map.mp hm
    rfl
  show (addMessages t.values.messages _).map (·.message) = _
  rw [addMessages_of_none _ hnone, List.map_append]
  refine congrArg (t.values.conversation ++ ·) ?_
  rw [initialState, List.map_map]
  exact List.map_id _

/-- What is asked is the conversation, pruned. -/
theorem asks_eq_ok {s : AgentState} {x : AgentMeets} {asked : List BaseMessage}
    (h : asks budget s x = .ok asked) : pruneMessages x.condense s.conversation = some asked := by
  unfold asks at h
  split at h
  · exact absurd h (by simp)
  · split at h
    · exact absurd h (by simp)
    · split at h
      · exact absurd h (by simp)
      · next messages hmessages =>
        obtain rfl := Except.ok.inj h
        exact hmessages

section

variable {s : AgentState} {x : AgentMeets} {asked : List BaseMessage}

theorem agentNode_of_error {e : AgentError} (h : asks budget s x = .error e) :
    agentNode budget s x = ([], .error e) := by
  simp only [agentNode, h]

theorem agentNode_of_none (h : asks budget s x = .ok asked) (hr : x.response = none) :
    agentNode budget s x = ([⟨asked, none⟩], .error .model) := by
  simp only [agentNode, h, hr]

theorem agentNode_of_some (h : asks budget s x = .ok asked) {r : ModelResponse}
    (hr : x.response = some r) :
    agentNode budget s x = ([⟨asked, some r⟩], receives budget s x r) := by
  simp only [agentNode, h, hr]

/-- What the model is asked. -/
theorem asks_of_mem_agentNode (h : asked ∈ (agentNode budget s x).1.map (·.asked)) :
    asks budget s x = .ok asked := by
  cases hasks : asks budget s x with
  | error e =>
    rw [agentNode_of_error hasks] at h
    exact absurd h List.not_mem_nil
  | ok messages =>
    have hone : (agentNode budget s x).1.map (·.asked) = [messages] := by
      cases hr : x.response with
      | none => rw [agentNode_of_none hasks hr, List.map_singleton]
      | some r => rw [agentNode_of_some hasks hr, List.map_singleton]
    rw [hone, List.mem_singleton] at h
    rw [h]

end

theorem Pruned.length_eq {messages pruned : List BaseMessage} (h : Pruned messages pruned) :
    pruned.length = messages.length := h.kept.length_eq.symm

/-- The first call of the model, of an attempt that was started on the
thread, is with the system prompt and the task prompt. -/
def StartsFresh (repr : List String → String) (spec : Shared.TaskSpec) (budget : Shared.Budget)
    (t : AgentThread) : Prop :=
  ∀ x asked, asks budget (started repr spec t).values x = .ok asked →
    asked = initialMessages repr spec

theorem startsFresh_of_nil (h : t.values.messages = []) : StartsFresh repr spec budget t := by
  intro x asked hasks
  have hconversation : (started repr spec t).values.conversation = initialMessages repr spec := by
    rw [started_conversation, AgentState.conversation, h]
    rfl
  have hprune := asks_eq_ok hasks
  rw [hconversation] at hprune
  exact Option.some.inj (hprune.symm.trans rfl)

/-- What a thread has is asked too. -/
theorem not_startsFresh_of_ne_nil (hturns : 0 < budget.turns) (hseconds : 0 ≤ budget.remainingSeconds)
    (h : t.values.messages ≠ []) : ¬ StartsFresh repr spec budget t := by
  intro hfresh
  obtain ⟨pruned, hpruned⟩ := pruneFrom_none
    (toFold (started repr spec t).values.conversation) 0 0 (started repr spec t).values.conversation
  have hasks : asks budget (started repr spec t).values { elapsed := 0, response := none } =
      .ok pruned := by
    unfold asks
    rw [if_neg (by show ¬ budget.turns ≤ 0; omega), if_neg (by show ¬ budget.remainingSeconds < 0; omega)]
    show (match pruneFrom none _ 0 0 _ with | none => _ | some messages => _) = _
    rw [hpruned]
  have hlength := Pruned.length_eq (pruneMessages_pruned (asks_eq_ok hasks))
  rw [hfresh _ _ hasks, started_conversation, List.length_append] at hlength
  have hpos : 0 < t.values.conversation.length := by
    rw [AgentState.conversation, List.length_map]
    exact List.length_pos_of_ne_nil h
  omega

/-- **An attempt that is started begins from scratch exactly if the thread
has no message yet.** -/
theorem startsFresh_iff (repr : List String → String) (spec : Shared.TaskSpec)
    (budget : Shared.Budget) (t : AgentThread) (hturns : 0 < budget.turns)
    (hseconds : 0 ≤ budget.remainingSeconds) :
    StartsFresh repr spec budget t ↔ t.values.messages = [] := by
  constructor
  · intro hfresh
    by_contra h
    exact not_startsFresh_of_ne_nil hturns hseconds h hfresh
  · exact startsFresh_of_nil

end

/-- A budget of a task, all of it left. -/
def fullBudget : Shared.Budget where
  tokens := 1000
  seconds := 60
  turns := 5
  remainingTokens := 1000
  remainingSeconds := 60

def bugSpec : Shared.TaskSpec where
  description := "fails"
  workdir := "."
  allowedPaths := ["src/**"]
  staticCheck := []
  failToPass := ["pytest -q"]
  passToPass := []
  acceptanceCriteria := []

/-- `repr` of texts without quotes and escapes. -/
def plainRepr (items : List String) : String :=
  "[" ++ ", ".intercalate (items.map fun item => "'" ++ item ++ "'") ++ "]"

theorem startsFresh_new : StartsFresh plainRepr bugSpec fullBudget { values := {} } :=
  (startsFresh_iff plainRepr bugSpec fullBudget { values := {} } (by decide) (by decide)).mpr rfl

def listCall : AiToolCall := ⟨"run_command", [("command", .str "ls")], "call-1"⟩

/-- A thread whose attempt was stopped in its first tools node. -/
def stoppedThread : AgentThread where
  values := {
    messages := [⟨some "1", .human (.text "fails")⟩, ⟨some "2", .ai (.text "") [listCall]⟩]
    turn := 1 }
  next := some .tools

/-- An attempt that is started after it asks the model with the call that
was left open. -/
theorem stoppedThread_not_startsFresh :
    ¬ ∀ t, StartsFresh plainRepr bugSpec fullBudget t := fun h =>
  not_startsFresh_of_ne_nil (by decide) (by decide) (List.cons_ne_nil _ _) (h stoppedThread)

/-! ## Attempts, one after the other -/

inductive RunPhase where
  | idle
  /-- The input is not persisted yet. -/
  | starting
  /-- The graph is at the node that is next. -/
  | running
  deriving DecidableEq, Repr

structure RunState where
  thread : AgentThread := { values := {} }
  phase : RunPhase := .idle

inductive RunEvent where
  /-- `SelfAgent.run`, up to the graph. -/
  | run (resume : Bool) (feedback : Option String) (answers : ℕ → Option String)
  | input
  | agent (x : AgentMeets)
  | tools (meets : ℕ → ToolMeets)
  | stop

section

variable (repr : List String → String) (spec : Shared.TaskSpec) (budget : Shared.Budget)

/-- A node that is run to its end is persisted; one that raises is not. -/
def RunState.node (s : RunState) (node : GraphNode) :
    Except AgentError StateUpdate → RunState
  | .ok update => { s with thread := build.write node s.thread update }
  | .error _ => { s with phase := .idle }

def runStep (s : RunState) : RunEvent → RunState
  | .run resume feedback answers =>
    if s.phase = .idle then
      if resume ∧ s.thread.values.messages ≠ [] then
        match resumed s.thread feedback answers with
        | some thread => { thread, phase := .running }
        | none => s
      else { s with phase := .starting }
    else s
  | .input =>
    if s.phase = .starting then { thread := started repr spec s.thread, phase := .running } else s
  | .agent x =>
    if s.phase = .running ∧ s.thread.next = some .agent then
      s.node .agent (agentNode budget s.thread.values x).2
    else s
  | .tools meets =>
    if s.phase = .running ∧ s.thread.next = some .tools then
      s.node .tools (toolsNode s.thread.values meets)
    else s
  | .stop => { s with phase := .idle }

/-- The attempts of a run, on one thread. -/
def runs : Machine RunState RunEvent where
  init := {}
  step := runStep repr spec budget

/-- What the model is asked in a step. -/
def askedIn (s : RunState) : RunEvent → List (List BaseMessage)
  | .agent x =>
    if s.phase = .running ∧ s.thread.next = some .agent then
      (agentNode budget s.thread.values x).1.map (·.asked)
    else []
  | _ => []

/-- Attempts resume, except on a new thread; and a response has an id of its
own, if it has one. -/
def Continues (s : RunState) : RunEvent → Prop
  | .run resume _ _ => resume = true ∨ s.thread.values.messages = []
  | .agent x => ∀ r ∈ x.response, ∀ m ∈ s.thread.values.messages, r.id ≠ none → m.id ≠ r.id
  | _ => True

/-- **A thread between two nodes**: its conversation is well-formed, up to
the answers the tools node is about to give. -/
def AnswersDue (t : AgentThread) : Prop :=
  match t.next with
  | some .tools => ∃ before content calls,
      t.values.conversation = before ++ [.ai content calls] ∧ WellFormed before
  | _ => WellFormed t.values.conversation

/-- What holds of a thread in every state: its answers are due, and an input
is applied to a new one only. -/
structure ThreadInv (s : RunState) : Prop where
  due : AnswersDue s.thread
  fresh : s.phase = .starting → s.thread.values.messages = []

end

section

variable {repr : List String → String} {spec : Shared.TaskSpec} {budget : Shared.Budget}
  {s : RunState}

theorem conversation_write {t : AgentThread} {u : StateUpdate} (node : GraphNode)
    (h : ∀ m ∈ u.messages, m.id = none) : (build.write node t u).values.conversation =
      t.values.conversation ++ u.messages.map (·.message) := by
  show (addMessages t.values.messages u.messages).map (·.message) = _
  rw [addMessages_of_none _ h, List.map_append]
  rfl

theorem answersOf_replay {answers : ℕ → Option String} {i : ℕ} {calls : List AiToolCall}
    {inject : List ThreadMessage} (h : replay answers i calls = some inject) :
    (∀ m ∈ inject, m.id = none) ∧ AnswersOf calls (inject.map (·.message)) := by
  induction calls generalizing i inject with
  | nil =>
    obtain rfl := Option.some.inj h
    exact ⟨by simp, .nil⟩
  | cons call calls ih =>
    simp only [replay, Option.bind_eq_bind, Option.bind_eq_some_iff] at h
    obtain ⟨content, -, rest, hrest, heq⟩ := h
    obtain rfl := Option.some.inj heq
    obtain ⟨hnone, hanswers⟩ := ih hrest
    exact ⟨List.forall_mem_cons.mpr ⟨rfl, hnone⟩, .cons ⟨.text content, rfl⟩ hanswers⟩

theorem answersOf_toolsOutputs {meets : ℕ → ToolMeets} {i : ℕ} {calls : List AiToolCall}
    {outputs : List ThreadMessage} (h : toolsOutputs meets i calls = .ok outputs) :
    (∀ m ∈ outputs, m.id = none) ∧ AnswersOf calls (outputs.map (·.message)) := by
  induction calls generalizing i outputs with
  | nil =>
    obtain rfl := Except.ok.inj h
    exact ⟨by simp, .nil⟩
  | cons call calls ih =>
    rw [toolsOutputs] at h
    split at h
    · exact absurd h (by simp)
    · exact absurd h (by simp)
    · next content _ =>
      cases hrest : toolsOutputs meets (i + 1) calls with
      | error e =>
        rw [hrest] at h
        exact absurd h (by simp [bind, Except.bind])
      | ok rest =>
        rw [hrest] at h
        obtain rfl := Except.ok.inj h
        obtain ⟨hnone, hanswers⟩ := ih hrest
        exact ⟨List.forall_mem_cons.mpr ⟨rfl, hnone⟩, .cons ⟨.text content, rfl⟩ hanswers⟩

/-- **Where the answers are due, answering the open calls makes the
conversation well-formed.** -/
theorem AnswersDue.answered {t : AgentThread} (h : AnswersDue t) {answers : List BaseMessage}
    (hanswers : AnswersOf (danglingToolCalls t.values.conversation) answers) :
    WellFormed (t.values.conversation ++ answers) := by
  have hclosed : WellFormed t.values.conversation →
      WellFormed (t.values.conversation ++ answers) := by
    intro hwell
    rw [hwell.dangling] at hanswers
    rw [List.forall₂_nil_left_iff.mp hanswers, List.append_nil]
    exact hwell
  unfold AnswersDue at h
  split at h
  · obtain ⟨before, content, calls, hconversation, hbefore⟩ := h
    have hdangling : danglingToolCalls t.values.conversation = calls := by
      unfold danglingToolCalls
      rw [hconversation, List.getLast?_concat]
    rw [hdangling] at hanswers
    rw [hconversation, List.append_assoc]
    refine hbefore.append ?_
    have hturn : WellFormed (.ai content calls :: (answers ++ [])) := .turn hanswers .nil
    rw [List.append_nil] at hturn
    exact hturn
  · exact hclosed h

/-- A resumed thread. -/
theorem AnswersDue.resumed {t t' : AgentThread} (h : AnswersDue t) {feedback : Option String}
    {answers : ℕ → Option String} (hresumed : resumed t feedback answers = some t') :
    AnswersDue t' := by
  simp only [SelfAgent.resumed, Option.bind_eq_bind, Option.bind_eq_some_iff] at hresumed
  obtain ⟨inject, hreplay, hthread⟩ := hresumed
  obtain ⟨hnone, hanswers⟩ := answersOf_replay hreplay
  split at hthread
  · obtain rfl := Option.some.inj hthread
    exact h
  · obtain rfl := Option.some.inj hthread
    -- the tools node has been left, so the conversation has to be well-formed
    show WellFormed (build.write .tools t _).values.conversation
    have hwell := h.answered hanswers
    have hnone' : ∀ m ∈ inject ++ ((feedback.filter (· ≠ "")).map
        fun text => ThreadMessage.mk none (.human (.text text))).toList, m.id = none := by
      intro m hm
      rcases List.mem_append.mp hm with hm | hm
      · exact hnone m hm
      · obtain ⟨text, -, rfl⟩ := Option.map_eq_some_iff.mp (Option.mem_toList.mp hm)
        rfl
    rw [conversation_write .tools hnone', List.map_append, ← List.append_assoc]
    refine hwell.append ?_
    cases feedback.filter (· ≠ "") with
    | none => exact .nil
    | some text => exact .other rfl rfl .nil

/-- The agent node appends its response. -/
theorem AnswersDue.agent {t : AgentThread} (h : AnswersDue t) (hnext : t.next = some .agent)
    {x : AgentMeets} {r : ModelResponse} {u : StateUpdate}
    (hreceives : receives budget t.values x r = .ok u)
    (hnew : ∀ m ∈ t.values.messages, r.id ≠ none → m.id ≠ r.id) :
    AnswersDue (build.write .agent t u) := by
  have hwell : WellFormed t.values.conversation := by
    unfold AnswersDue at h
    rw [hnext] at h
    exact h
  unfold receives at hreceives
  split at hreceives
  · exact absurd hreceives (by simp)
  · split at hreceives
    · exact absurd hreceives (by simp)
    · obtain rfl := Except.ok.inj hreceives
      have hconversation : ∀ u : StateUpdate, u.messages = [⟨r.id, .ai r.content r.toolCalls⟩] →
          (t.values.reduce u).conversation =
            t.values.conversation ++ [.ai r.content r.toolCalls] := by
        intro u hu
        show (addMessages t.values.messages u.messages).map (·.message) = _
        rw [hu, addMessages_of_new hnew, List.map_append]
        rfl
      by_cases hcalls : r.toolCalls.isEmpty
      · -- there is no call, and the graph is at its end
        show AnswersDue ⟨t.values.reduce _, if _ then none else some .tools⟩
        rw [if_pos (by show r.toolCalls.isEmpty = true; exact hcalls)]
        show WellFormed (t.values.reduce _).conversation
        rw [hconversation _ rfl, List.isEmpty_iff.mp hcalls]
        exact hwell.append (.turn (.nil : AnswersOf [] []) .nil)
      · show AnswersDue ⟨t.values.reduce _, if _ then none else some .tools⟩
        rw [if_neg (by show ¬ r.toolCalls.isEmpty = true; exact hcalls)]
        exact ⟨t.values.conversation, r.content, r.toolCalls, hconversation _ rfl, hwell⟩

/-- The tools node answers the open calls. -/
theorem AnswersDue.tools {t : AgentThread} (h : AnswersDue t) {meets : ℕ → ToolMeets}
    {u : StateUpdate} (htools : toolsNode t.values meets = .ok u) :
    AnswersDue (build.write .tools t u) := by
  unfold toolsNode at htools
  split at htools
  · next content calls hlast =>
    cases houtputs : toolsOutputs meets 0 calls with
    | error e =>
      rw [houtputs] at htools
      exact absurd htools (by simp [bind, Except.bind])
    | ok outputs =>
      rw [houtputs] at htools
      obtain rfl := Except.ok.inj htools
      obtain ⟨hnone, hanswers⟩ := answersOf_toolsOutputs houtputs
      show WellFormed (build.write .tools t _).values.conversation
      rw [conversation_write .tools hnone]
      refine h.answered ?_
      unfold danglingToolCalls
      rw [hlast]
      exact hanswers
  · exact absurd htools (by simp)

/-- A new thread has the two initial messages after its input. -/
theorem answersDue_started {t : AgentThread} (h : t.values.messages = []) :
    AnswersDue (started repr spec t) := by
  show WellFormed (started repr spec t).values.conversation
  rw [started_conversation, AgentState.conversation, h]
  exact .other rfl rfl (.other rfl rfl .nil)

/-- What the agent node has returned. -/
theorem agentNode_eq_ok {s : AgentState} {x : AgentMeets} {u : StateUpdate}
    (h : (agentNode budget s x).2 = .ok u) :
    ∃ r, x.response = some r ∧ receives budget s x r = .ok u := by
  cases hasks : asks budget s x with
  | error e =>
    rw [agentNode_of_error hasks] at h
    exact absurd h (by simp)
  | ok asked =>
    cases hr : x.response with
    | none =>
      rw [agentNode_of_none hasks hr] at h
      exact absurd h (by simp)
    | some r =>
      rw [agentNode_of_some hasks hr] at h
      exact ⟨r, rfl, h⟩

/-- A node keeps the invariant if what it writes does. -/
theorem ThreadInv.node (h : ThreadInv s) (node : GraphNode) {result : Except AgentError StateUpdate}
    (hrunning : s.phase = .running)
    (hok : ∀ u, result = .ok u → AnswersDue (build.write node s.thread u)) :
    ThreadInv (s.node node result) := by
  cases result with
  | error e => exact ⟨h.due, by simp [RunState.node]⟩
  | ok u =>
    refine ⟨hok u rfl, fun hstarting => ?_⟩
    have hphase : s.phase = .starting := hstarting
    rw [hrunning] at hphase
    exact absurd hphase (by simp)

theorem threadInv_step {e : RunEvent} (h : ThreadInv s) (hcontinues : Continues s e) :
    ThreadInv (runStep repr spec budget s e) := by
  cases e with
  | run resume feedback answers =>
    show ThreadInv (if _ then if _ then _ else _ else _)
    split
    · split
      · cases hresumed : SelfAgent.resumed s.thread feedback answers with
        | none => exact h
        | some thread => exact ⟨h.due.resumed hresumed, by simp⟩
      · next hnot =>
        -- it is not resumed, so the thread is new
        refine ⟨h.due, fun _ => ?_⟩
        by_contra hne
        exact hnot ⟨hcontinues.resolve_right hne, hne⟩
    · exact h
  | input =>
    show ThreadInv (if _ then _ else _)
    split
    · next hstarting => exact ⟨answersDue_started (h.fresh hstarting), by simp⟩
    · exact h
  | agent x =>
    show ThreadInv (if _ then _ else _)
    split
    · next hnode =>
      refine h.node .agent hnode.1 fun u hu => ?_
      obtain ⟨r, hr, hreceives⟩ := agentNode_eq_ok hu
      exact h.due.agent hnode.2 hreceives (hcontinues r hr)
    · exact h
  | tools meets =>
    show ThreadInv (if _ then _ else _)
    split
    · next hnode => exact h.node .tools hnode.1 fun u hu => h.due.tools hu
    · exact h
  | stop => exact ⟨h.due, by simp [runStep]⟩

/-- **What the model is asked is well-formed.** -/
theorem asked_step {e : RunEvent} (h : ThreadInv s) :
    ∀ asked ∈ askedIn budget s e, WellFormed asked := by
  intro asked hasked
  cases e with
  | agent x =>
    simp only [askedIn] at hasked
    split at hasked
    · next hnode =>
      have hwell : WellFormed s.thread.values.conversation := by
        have hdue := h.due
        unfold AnswersDue at hdue
        rw [hnode.2] at hdue
        exact hdue
      have hasks := asks_of_mem_agentNode hasked
      exact hwell.kept (pruneMessages_pruned (asks_eq_ok hasks)).kept
    · exact absurd hasked List.not_mem_nil
  | _ => exact absurd hasked List.not_mem_nil

/-- In a run whose steps are admitted, from any state. -/
theorem asked_runFrom {es : List RunEvent} (h : ThreadInv s)
    (hes : (runs repr spec budget).Admits Continues s es) :
    ∀ asked ∈ (runs repr spec budget).gather (askedIn budget) s es, WellFormed asked := by
  induction es generalizing s with
  | nil =>
    intro asked hasked
    exact absurd hasked List.not_mem_nil
  | cons e es ih =>
    intro asked hasked
    rcases List.mem_append.mp hasked with hfirst | hlater
    · exact asked_step h asked hfirst
    · exact ih (threadInv_step h hes.1) hes.2 asked hlater

end

/-- **Resumed conversations stay well-formed**: in every run of attempts
from a new thread, each list the model is asked is well-formed; and
`prune_messages` keeps what it has to and does not modify its input. -/
theorem conversations_wellFormed (repr : List String → String) (spec : Shared.TaskSpec)
    (budget : Shared.Budget) {es : List RunEvent} (hes : (runs repr spec budget).Admits Continues {} es) :
    (∀ asked ∈ (runs repr spec budget).gather (askedIn budget) {} es, WellFormed asked) ∧
      (∀ condense messages pruned, pruneMessages condense messages = some pruned →
        Pruned messages pruned) ∧
      ∀ condense (heap heap' : Heap) (refs refs' : List ℕ), (∀ ref ∈ refs, ref < heap.next) →
        pruneObjects condense (toFold (refs.map heap.object)) 0 0 refs heap = some (refs', heap') →
          heap.Unmodified heap' ∧
            pruneMessages condense (refs.map heap.object) = some (refs'.map heap'.object) := by
  refine ⟨?_, ?_, ?_⟩
  · exact asked_runFrom ⟨.nil, by simp⟩ hes
  · exact fun condense messages pruned h => pruneMessages_pruned h
  · exact fun condense heap heap' refs refs' hrefs h => pruneObjects_spec h hrefs

/-- An attempt that is stopped before its tools node, and one that resumes. -/
def interrupted : List RunEvent :=
  [.run true none fun _ => none, .input,
    .agent { elapsed := 0, response := some { id := some "r1", toolCalls := [listCall] } }, .stop,
    .run true (some "again") fun _ => some "out",
    .agent { elapsed := 0, response := some { id := some "r2", toolCalls := [] } }]

theorem interrupted_admitted :
    (runs plainRepr bugSpec fullBudget).Admits Continues {} interrupted := by
  refine ⟨.inl rfl, trivial, ?_, trivial, .inl rfl, ?_, trivial⟩
  · intro r hr m hm _
    obtain rfl := Option.some.inj hr
    have hid : ∀ m ∈ (started plainRepr bugSpec { values := {} }).values.messages,
        m.id ≠ some "r1" := by decide +kernel
    exact hid m hm
  · intro r hr m hm _
    obtain rfl := Option.some.inj hr
    revert m
    decide +kernel

theorem conversations_wellFormed_interrupted :
    ((runs plainRepr bugSpec fullBudget).gather (askedIn fullBudget) {} interrupted).length = 2 ∧
      ∀ asked ∈ (runs plainRepr bugSpec fullBudget).gather (askedIn fullBudget) {} interrupted,
        WellFormed asked :=
  ⟨by decide +kernel, (conversations_wellFormed plainRepr bugSpec fullBudget interrupted_admitted).1⟩

end SelfAgent

end Runtime

end AgentReliability
