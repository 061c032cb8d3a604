import AgentReliability.Common.Machine
import AgentReliability.Runtime.Toolset
/-!
# The agent, its thread and its checkpoints

`SelfAgent.run` inside `RealExecutor.execute`, for a run without restarts.
Two stores are written at different moments: LangGraph persists the thread
after each node and after `update_state`, and `on_checkpoint` saves the
work tree together with the completed tool calls. An attempt may stop
anywhere, and the next one restores the work tree from the latest
checkpoint and goes on with the thread.
-/

namespace AgentReliability

namespace Runtime

/-! ## The two stores -/

inductive Message where
  | system
  | human (text : String)
  | ai (calls : List ToolCall)
  | tool (callId : ToolCallId) (content : ToolContent)
  deriving DecidableEq, Repr

/-- The node the graph runs next. -/
inductive Node where
  | agent | tools | finish
  deriving DecidableEq, Repr

/-- The state LangGraph has persisted under the thread. -/
structure Thread where
  messages : List Message := []
  next : Node := .agent
  deriving DecidableEq, Repr

/-- A platform checkpoint, as far as an attempt is resumed from it. That
applying `appliedPatch` to the base reproduces the work tree it was captured
from is the assumption of the restore. -/
structure PlatformCheckpoint (F : Type) where
  workspace : Workspace F
  completed : List (ToolCallId × String)

/-! ## An attempt -/

inductive Phase where
  /-- In `run`, before `update_state`: the dangling calls that are still to
  be answered, and the messages to inject. -/
  | replaying (remaining : List ToolCall) (inject : List Message)
  /-- The graph is at the agent node: it invokes the model. -/
  | agent
  /-- In the tools node: the calls still to be made, the answers, and
  whether `on_checkpoint` is due for the last. -/
  | tools (remaining : List ToolCall) (outputs : List Message) (due : Bool)
  | finished
  deriving DecidableEq, Repr

structure Live (F : Type) where
  toolset : Toolset F
  phase : Phase
  /-- The patches a call of the replay really ran, whose effect is not in
  the latest checkpoint. -/
  replayed : List String := []

structure AgentState (F : Type) where
  thread : Thread := {}
  /-- The run's latest checkpoint. -/
  checkpoint : Option (PlatformCheckpoint F) := none
  attempts : ℕ := 0
  live : Option (Live F) := none
  /-- The patches whose report `update_state` has stored after the replay
  really ran them, and which no `on_checkpoint` has followed. -/
  unsaved : List String := []

inductive AgentEvent (F : Type) where
  | start
  | replay (x : ToolOutcome F)
  | update (feedback : Option String)
  /-- The model is invoked and answers; an agent node that raises is a
  stop. -/
  | respond (calls : List ToolCall)
  | call (x : ToolOutcome F)
  | checkpoint
  | persist
  | stop

/-- The tool calls of the last message, if the model has sent it. -/
def danglingCalls (messages : List Message) : List ToolCall :=
  match messages.getLast? with
  | some (.ai calls) => calls
  | _ => []

/-- `initial_state`. -/
def initialMessages : List Message := [.system, .human "任务"]

section

variable {F : Type} (g : Git F) (base : F)

/-- The work tree the next attempt starts with. -/
def AgentState.restored (s : AgentState F) : Workspace F :=
  match s.checkpoint with
  | some checkpoint => checkpoint.workspace
  | none => ⟨base, []⟩

/-- `RealExecutor.execute` up to the agent, and `SelfAgent.run` up to its
first tool call or to the graph. -/
def startAttempt (s : AgentState F) : AgentState F :=
  let toolset : Toolset F := {
    workspace := s.restored base
    completed := (s.checkpoint.map (·.completed)).getD []
    attemptNo := s.attempts + 1 }
  if s.checkpoint.isSome ∧ s.thread.messages ≠ [] then
    { s with
      attempts := s.attempts + 1
      live := some { toolset, phase := .replaying (danglingCalls s.thread.messages) [] } }
  else
    { s with
      attempts := s.attempts + 1
      thread := { messages := s.thread.messages ++ initialMessages, next := .agent }
      live := some { toolset, phase := .agent } }

/-- The patch of a call that was really run, if the latest checkpoint does
not have its effect. -/
def lackedPatch (saved : Workspace F) (t : Toolset F) (c : ToolCall) (content : ToolContent) :
    List String :=
  match c.request with
  | .applyPatch patch =>
    if content.reportsApplied ∧ c.id ∉ t.keys ∧ ¬ saved.Contains g patch then [patch] else []
  | _ => []

/-- Answers the next dangling call. -/
def replayCall (s : AgentState F) (live : Live F) (c : ToolCall) (remaining : List ToolCall)
    (inject : List Message) (x : ToolOutcome F) : AgentState F :=
  match live.toolset.dispatch g c x with
  | (_, none) => { s with live := none }
  | (toolset, some content) => { s with
      live := some {
        toolset
        phase := .replaying remaining (inject ++ [.tool c.id content])
        replayed := live.replayed ++ lackedPatch g (s.restored base) live.toolset c content } }

/-- `update_state`, if there is anything to inject, and the graph goes on. -/
def updateState (s : AgentState F) (live : Live F) (inject : List Message)
    (feedback : Option String) : AgentState F :=
  let inject := inject ++ ((feedback.filter (· ≠ "")).map Message.human).toList
  if inject = [] then
    { s with live := some { live with phase := match s.thread.next with
      | .agent => .agent
      | .tools => .tools (danglingCalls s.thread.messages) [] false
      | .finish => .finished } }
  else
    { s with
      thread := { messages := s.thread.messages ++ inject, next := .agent }
      unsaved := s.unsaved ++ live.replayed
      live := some { live with phase := .agent, replayed := [] } }

/-- `_agent_node`, and the edge after it. -/
def agentNode (s : AgentState F) (live : Live F) (calls : List ToolCall) : AgentState F :=
  { s with
    thread := {
      messages := s.thread.messages ++ [.ai calls]
      next := if calls = [] then .finish else .tools }
    live := some { live with
      toolset := { live.toolset with sequence := live.toolset.sequence + 2 }
      phase := if calls = [] then .finished else .tools calls [] false } }

/-- Makes the next call of the tools node. -/
def toolCall (s : AgentState F) (live : Live F) (c : ToolCall) (remaining : List ToolCall)
    (outputs : List Message) (x : ToolOutcome F) : AgentState F :=
  match live.toolset.dispatch g c x with
  | (_, none) => { s with live := none }
  | (toolset, some content) => { s with
      live := some { live with
        toolset, phase := .tools remaining (outputs ++ [.tool c.id content]) true } }

/-- `on_checkpoint`. -/
def onCheckpoint (s : AgentState F) (live : Live F) (phase : Phase) : AgentState F :=
  { s with
    checkpoint := some ⟨live.toolset.workspace, live.toolset.completed⟩
    unsaved := []
    live := some { live with
      toolset := { live.toolset with sequence := live.toolset.sequence + 1 }
      phase } }

/-- One event. What is not possible in a phase does nothing. -/
def agentStep (s : AgentState F) (e : AgentEvent F) : AgentState F :=
  match s.live with
  | none =>
    match e with
    | .start => startAttempt base s
    | _ => s
  | some live =>
    match e, live.phase with
    | .replay x, .replaying (c :: remaining) inject => replayCall g base s live c remaining inject x
    | .update feedback, .replaying [] inject => updateState s live inject feedback
    | .respond calls, .agent => agentNode s live calls
    | .call x, .tools (c :: remaining) outputs false => toolCall g s live c remaining outputs x
    | .checkpoint, .tools remaining outputs true =>
      onCheckpoint s live (.tools remaining outputs false)
    -- The checkpoint after a verification that failed.
    | .checkpoint, .finished => onCheckpoint s live .finished
    | .persist, .tools [] outputs false => { s with
        thread := { messages := s.thread.messages ++ outputs, next := .agent }
        live := some { live with phase := .agent } }
    | .stop, _ => { s with live := none }
    | _, _ => s

/-- A run of the agent, over any attempts. -/
def agentMachine : Machine (AgentState F) (AgentEvent F) where
  init := {}
  step := agentStep g base

end

end Runtime

end AgentReliability
