import AgentReliability.Common.PythonText
import AgentReliability.Runtime.Graph
/-!
# The scripted model

`FakeScriptedModel`, which the demonstration and the tests run on. It keeps
no count of its own: the step it is at is read off the messages it is
asked with, so that an attempt that resumes after a crash goes on with the
script. What it is asked is a pruned conversation, and a thread outlives its
attempts, so this is a property of whole runs.
-/

namespace AgentReliability

namespace Runtime

namespace SelfAgent

/-! ## The script -/

/-- The path a line of a patch names, if it is that of a new file:
`^\+\+\+ b/(\S+)`. -/
def lineTarget (line : List Char) : Option String :=
  if "+++ b/".toList.isPrefixOf line then
    let path := (line.drop 6).takeWhile fun c => ¬ PythonText.isWhitespace c
    if path.isEmpty then none else some (.ofList path)
  else none

structure FakeScriptedModel where
  goldPatch : String
  failToPass : List String

namespace FakeScriptedModel

variable (model : FakeScriptedModel)

/-- `target_file`. -/
def targetFile : String :=
  ((model.goldPatch.toList.splitOn '\n').findSome? lineTarget).getD "README.md"

/-- An `AIMessage` of the script, with its usage. -/
def message (content : String) (calls : List AiToolCall) : ModelResponse where
  content := .text content
  toolCalls := calls
  promptTokens := 200
  completionTokens := 40

/-- The id of the call of a step. -/
def callId (step : ℕ) : String := "fake-step-" ++ toString step

def readCall : AiToolCall := ⟨"read_file", [("path", .str model.targetFile)], callId 1⟩

def patchCall : AiToolCall := ⟨"apply_patch", [("patch", .str model.goldPatch)], callId 2⟩

def testCall (command : String) : AiToolCall :=
  ⟨"run_command", [("command", .str command)], callId 3⟩

/-- What is said in a step. -/
def answer (step : ℕ) : ModelResponse :=
  match step, model.failToPass with
  | 1, _ => message "diagnose：先读缺陷文件确认现状" [model.readCall]
  | 2, _ => message "plan：按边界条件修复；edit：应用补丁" [model.patchCall]
  | 3, command :: _ => message "test：运行定向测试验证修复" [testCall command]
  | _, _ => message "修复完成，测试通过。FINISH" []

/-- `FakeScriptedModel.invoke`, where no fault is injected. -/
def invoke (messages : List BaseMessage) : ModelResponse :=
  model.answer (messages.countP (·.isAi) + 1)

/-- The calls of the whole script. -/
def calls : List AiToolCall :=
  [model.readCall, model.patchCall] ++ (model.failToPass.take 1).map testCall

/-- The first messages of the script. -/
def script (n : ℕ) : List BaseMessage :=
  (List.range n).map fun i => .ai (model.answer (i + 1)).content (model.answer (i + 1)).toolCalls

end FakeScriptedModel

/-- The calls of a message. -/
def BaseMessage.calls : BaseMessage → List AiToolCall
  | .ai _ calls => calls
  | _ => []

/-- The model answers with the script where it is asked, or raises. -/
def Scripted (model : FakeScriptedModel) (budget : Shared.Budget) (s : RunState) : RunEvent → Prop
  | .agent x => ∀ asked, asks budget s.thread.values x = .ok asked →
      x.response = none ∨ x.response = some (model.invoke asked)
  | _ => True

/-! ## The calls of the script -/

section

variable {model : FakeScriptedModel}

theorem answer_toolCalls (model : FakeScriptedModel) (n : ℕ) :
    (model.answer (n + 1)).toolCalls = model.calls[n]?.toList := by
  unfold FakeScriptedModel.calls
  rcases n with - | - | - | n
  · rfl
  · rfl
  · cases hcommands : model.failToPass with
    | nil => simp [FakeScriptedModel.answer, hcommands, FakeScriptedModel.message]
    | cons command commands =>
      simp [FakeScriptedModel.answer, hcommands, FakeScriptedModel.message]
  · have hnone : ([model.readCall, model.patchCall] ++
        (model.failToPass.take 1).map FakeScriptedModel.testCall)[n + 1 + 1 + 1]? = none := by
      rw [List.getElem?_eq_none_iff, List.length_append, List.length_map, List.length_take]
      show 2 + _ ≤ _
      omega
    rw [hnone]
    rfl

/-- **The calls of the first messages are the first calls.** -/
theorem script_calls (model : FakeScriptedModel) (n : ℕ) :
    (model.script n).flatMap BaseMessage.calls = model.calls.take n := by
  induction n with
  | zero => rfl
  | succ n ih =>
    rw [List.take_add_one, ← ih, FakeScriptedModel.script, List.range_succ, List.map_append,
      List.flatMap_append, ← answer_toolCalls]
    exact congrArg _ (List.append_nil _)

/-- The tools of the calls are different ones. -/
theorem calls_names_nodup (model : FakeScriptedModel) :
    (model.calls.map (·.name)).Nodup := by
  cases h : model.failToPass with
  | nil => simp [FakeScriptedModel.calls, h, FakeScriptedModel.readCall,
      FakeScriptedModel.patchCall]
  | cons command commands => simp [FakeScriptedModel.calls, h, FakeScriptedModel.readCall,
      FakeScriptedModel.patchCall, FakeScriptedModel.testCall]

/-- The name in an item of a signature. -/
def signedName : PyValue → String
  | .list (.str name :: _) => name
  | _ => ""

/-- A signature has the names of the calls. -/
theorem names_of_signature {calls calls' : List AiToolCall}
    (h : signature calls = signature calls') : calls.map (·.name) = calls'.map (·.name) := by
  have hsorted := PyValue.dumps_inj.mp h
  simp only [PyValue.sortKeys, PyValue.list.injEq, PyValue.sortItems_eq_map, List.map_map] at hsorted
  have hnames : ∀ calls : List AiToolCall, calls.map (·.name) =
      (calls.map (PyValue.sortKeys ∘ fun call =>
        PyValue.list [.str call.name, .dict call.args])).map signedName := by
    intro calls
    rw [List.map_map]
    exact List.map_congr_left fun call _ => rfl
  rw [hnames calls, hnames calls', hsorted]

/-- **No step repeats the calls of another.** -/
theorem signature_ne {i n : ℕ} (hi : i < n) (hcalls : (model.answer (n + 1)).toolCalls ≠ []) :
    signature (model.answer (i + 1)).toolCalls ≠ signature (model.answer (n + 1)).toolCalls := by
  intro h
  have hnames := names_of_signature h
  rw [answer_toolCalls] at hcalls
  rw [answer_toolCalls, answer_toolCalls] at hnames
  have hlt : n < model.calls.length := by
    by_contra hge
    rw [List.getElem?_eq_none (by omega)] at hcalls
    exact hcalls rfl
  have hli : i < model.calls.length := by omega
  rw [List.getElem?_eq_getElem hlt, List.getElem?_eq_getElem hli] at hnames
  have hname : (model.calls.map (·.name))[i]? = (model.calls.map (·.name))[n]? := by
    rw [List.getElem?_map, List.getElem?_map, List.getElem?_eq_getElem hlt,
      List.getElem?_eq_getElem hli]
    exact congrArg some (List.cons.inj hnames).1
  have hli : i < (model.calls.map (·.name)).length := by rwa [List.length_map]
  have heq := (List.getElem?_inj hli (calls_names_nodup model)).mp hname
  omega

/-! ## What follows the script -/

/-- The messages of the model. -/
def AgentState.said (s : AgentState) : List BaseMessage := s.conversation.filter (·.isAi)

/-- **A thread that follows the script**: the messages of the model are its
first ones, the signatures are of theirs, and the graph is at its end only
when every call has been made. -/
structure Follows (model : FakeScriptedModel) (t : AgentThread) : Prop where
  said : t.values.said = model.script t.values.said.length
  signed : ∀ text ∈ t.values.stuckSignatures, ∃ i < t.values.said.length,
    text = signature (model.answer (i + 1)).toolCalls
  finished : t.values.messages ≠ [] → t.next = none → model.calls.length < t.values.said.length

/-- What is pruned has the same messages of the model. -/
theorem countP_isAi_of_kept {messages pruned : List BaseMessage}
    (h : List.Forall₂ Kept messages pruned) :
    pruned.countP (·.isAi) = messages.countP (·.isAi) := by
  induction h with
  | nil => rfl
  | @cons m m' _ _ hm _ ih =>
    have hsame : m'.isAi = m.isAi := by
      rcases hm with rfl | ⟨content, text, callId, rfl, rfl⟩
      · rfl
      · rfl
    rw [List.countP_cons, List.countP_cons, ih, hsame]

/-- The step the model is at is read off what it is asked. -/
theorem invoke_of_asks {budget : Shared.Budget} {t : AgentThread} {x : AgentMeets}
    {asked : List BaseMessage} (h : asks budget t.values x = .ok asked) :
    model.invoke asked = model.answer (t.values.said.length + 1) := by
  have hkept := (pruneMessages_pruned (asks_eq_ok h)).kept
  unfold FakeScriptedModel.invoke AgentState.said
  rw [countP_isAi_of_kept hkept, List.countP_eq_length_filter]

theorem answer_id (model : FakeScriptedModel) (n : ℕ) : (model.answer n).id = none := by
  unfold FakeScriptedModel.answer
  split <;> rfl

/-- Messages that are not of the model say nothing. -/
theorem Follows.quiet {t t' : AgentThread} (h : Follows model t) {added : List BaseMessage}
    (hconversation : t'.values.conversation = t.values.conversation ++ added)
    (hadded : ∀ m ∈ added, m.isAi = false)
    (hsignatures : ∀ text ∈ t'.values.stuckSignatures, text ∈ t.values.stuckSignatures)
    (hnext : t'.next = some .agent) : Follows model t' := by
  have hsaid : t'.values.said = t.values.said := by
    have hnone : added.filter (·.isAi) = [] :=
      List.filter_eq_nil_iff.mpr fun m hm => by rw [hadded m hm]; exact Bool.false_ne_true
    unfold AgentState.said
    rw [hconversation, List.filter_append, hnone, List.append_nil]
  refine ⟨by rw [hsaid]; exact h.said, fun text htext => ?_, fun _ hend => ?_⟩
  · rw [hsaid]
    exact h.signed text (hsignatures text htext)
  · rw [hnext] at hend
    exact absurd hend (by simp)

/-- The next message of the script is said. -/
theorem Follows.agent {budget : Shared.Budget} {t : AgentThread} (h : Follows model t)
    {x : AgentMeets} {u : StateUpdate}
    (hu : receives budget t.values x (model.answer (t.values.said.length + 1)) = .ok u) :
    Follows model (build.write .agent t u) := by
  set r := model.answer (t.values.said.length + 1) with hr
  have hid : r.id = none := answer_id model _
  unfold receives at hu
  split at hu
  · exact absurd hu (by simp)
  · split at hu
    · exact absurd hu (by simp)
    · obtain rfl := Except.ok.inj hu
      have hsaid : (build.write .agent t (responseUpdate t.values x r)).values.said =
          t.values.said ++ [.ai r.content r.toolCalls] := by
        have hnone : ∀ m ∈ (responseUpdate t.values x r).messages, m.id = none := by
          intro m hm
          obtain rfl := List.mem_singleton.mp hm
          exact hid
        unfold AgentState.said
        rw [conversation_write .agent hnone, List.filter_append]
        rfl
      have hlength : (build.write .agent t (responseUpdate t.values x r)).values.said.length =
          t.values.said.length + 1 := by
        rw [hsaid, List.length_append]
        rfl
      refine ⟨?_, fun text htext => ?_, fun _ hend => ?_⟩
      · rw [hlength, hsaid, FakeScriptedModel.script, List.range_succ, List.map_append]
        exact congrArg (· ++ _) h.said
      · rw [hlength]
        have hmem : text ∈ t.values.stuckSignatures ++ [signature r.toolCalls] :=
          List.mem_of_mem_drop htext
        rcases List.mem_append.mp hmem with hold | hnew
        · obtain ⟨i, hi, htext⟩ := h.signed text hold
          exact ⟨i, by omega, htext⟩
        · exact ⟨t.values.said.length, Nat.lt_succ_self _, List.mem_singleton.mp hnew⟩
      · -- the graph is at its end, so the message has no calls
        have hcalls : r.toolCalls = [] := by
          by_contra hne
          have hdone : r.toolCalls.isEmpty = false := by
            rw [← Bool.not_eq_true, List.isEmpty_iff]
            exact hne
          have hnext : (if r.toolCalls.isEmpty then none else some GraphNode.tools) = none := hend
          rw [hdone] at hnext
          exact absurd hnext (by simp)
        rw [hr, answer_toolCalls, Option.toList_eq_nil_iff, List.getElem?_eq_none_iff] at hcalls
        omega

/-- The text of a stuck agent is never raised: what is repeated has no
calls. -/
theorem Follows.not_stuck {t : AgentThread} (h : Follows model t) :
    ¬ Stuck (signaturesAfter t.values (model.answer (t.values.said.length + 1)))
      (model.answer (t.values.said.length + 1)) := by
  set r := model.answer (t.values.said.length + 1)
  rintro ⟨hlength, hone, hcalls⟩
  have hsplit : signaturesAfter t.values r =
      t.values.stuckSignatures.rtake 2 ++ [signature r.toolCalls] :=
    List.rtake_concat_succ t.values.stuckSignatures 2 (signature r.toolCalls)
  obtain ⟨text, hall⟩ := List.length_eq_one_iff.mp hone
  have hsame : ∀ other ∈ signaturesAfter t.values r, other = text := by
    intro other hother
    rw [← List.mem_eraseDups, hall] at hother
    exact List.mem_singleton.mp hother
  rw [hsplit] at hlength hsame
  have hpos : 0 < (t.values.stuckSignatures.rtake 2).length := by
    rw [List.length_append] at hlength
    have hthree : (t.values.stuckSignatures.rtake 2).length + 1 = 3 := hlength
    omega
  obtain ⟨before, hbefore⟩ := List.exists_mem_of_length_pos hpos
  obtain ⟨i, hi, hsigned⟩ := h.signed before (List.mem_of_mem_drop hbefore)
  refine @signature_ne model _ _ hi ?_ ?_
  · rintro hnil
    exact hcalls (by rw [hnil]; decide +kernel)
  · rw [← hsigned, hsame before (List.mem_append_left _ hbefore)]
    exact (hsame _ (List.mem_append_right _ (List.mem_singleton_self _))).symm

section

variable {repr : List String → String} {spec : Shared.TaskSpec} {budget : Shared.Budget}

theorem follows_started {t : AgentThread} (h : Follows model t) :
    Follows model (started repr spec t) := by
  refine h.quiet (started_conversation t) ?_ ?_ rfl
  · intro m hm
    rcases List.mem_cons.mp hm with rfl | hm
    · rfl
    · obtain rfl := List.mem_singleton.mp hm
      rfl
  · intro text htext
    exact absurd htext List.not_mem_nil

/-- What is injected is not of the model. -/
theorem Follows.resumed {t t' : AgentThread} (h : Follows model t) {feedback : Option String}
    {answers : ℕ → Option String} (hresumed : resumed t feedback answers = some t') :
    Follows model t' := by
  simp only [SelfAgent.resumed, Option.bind_eq_bind, Option.bind_eq_some_iff] at hresumed
  obtain ⟨inject, hreplay, hthread⟩ := hresumed
  obtain ⟨hnone, hanswers⟩ := answersOf_replay hreplay
  have hquiet : ∀ m ∈ inject ++ ((feedback.filter (· ≠ "")).map
      fun text => ThreadMessage.mk none (.human (.text text))).toList,
      m.id = none ∧ m.message.isAi = false := by
    intro m hm
    rcases List.mem_append.mp hm with hm | hm
    · exact ⟨hnone m hm, hanswers.isAi _ (List.mem_map_of_mem hm)⟩
    · obtain ⟨text, -, rfl⟩ := Option.map_eq_some_iff.mp (Option.mem_toList.mp hm)
      exact ⟨rfl, rfl⟩
  split at hthread
  · obtain rfl := Option.some.inj hthread
    exact h
  · obtain rfl := Option.some.inj hthread
    refine h.quiet (conversation_write .tools fun m hm => (hquiet m hm).1) ?_ (fun _ h => h) rfl
    intro message hmessage
    obtain ⟨m, hm, rfl⟩ := List.mem_map.mp hmessage
    exact (hquiet m hm).2

/-- The outputs of the tools are not of the model. -/
theorem Follows.tools {t : AgentThread} (h : Follows model t) {meets : ℕ → ToolMeets}
    {u : StateUpdate} (hu : toolsNode t.values meets = .ok u) :
    Follows model (build.write .tools t u) := by
  unfold toolsNode at hu
  split at hu
  · next content calls _ =>
    cases houtputs : toolsOutputs meets 0 calls with
    | error e =>
      rw [houtputs] at hu
      exact absurd hu (by simp [bind, Except.bind])
    | ok outputs =>
      rw [houtputs] at hu
      obtain rfl := Except.ok.inj hu
      obtain ⟨hnone, hanswers⟩ := answersOf_toolsOutputs houtputs
      exact h.quiet (conversation_write .tools hnone) hanswers.isAi (fun _ h => h) rfl
  · exact absurd hu (by simp)

/-- What an agent node writes, where the model answers with the script. -/
theorem receives_of_scripted {s : RunState} {x : AgentMeets} {u : StateUpdate}
    (hx : Scripted model budget s (.agent x)) (hu : (agentNode budget s.thread.values x).2 = .ok u) :
    receives budget s.thread.values x (model.answer (s.thread.values.said.length + 1)) = .ok u := by
  obtain ⟨r, hr, hreceives⟩ := agentNode_eq_ok hu
  cases hasks : asks budget s.thread.values x with
  | error e =>
    rw [agentNode_of_error hasks] at hu
    exact absurd hu (by simp)
  | ok asked =>
    rcases hx asked hasks with hnone | hsome
    · rw [hr] at hnone
      exact absurd hnone (by simp)
    · rw [hr, invoke_of_asks hasks] at hsome
      rw [← Option.some.inj hsome]
      exact hreceives

theorem follows_step {s : RunState} {e : RunEvent} (h : Follows model s.thread)
    (he : Scripted model budget s e) : Follows model (runStep repr spec budget s e).thread := by
  cases e with
  | run resume feedback answers =>
    show Follows model (if _ then if _ then _ else _ else _ : RunState).thread
    split
    · split
      · cases hresumed : SelfAgent.resumed s.thread feedback answers with
        | none => exact h
        | some thread => exact h.resumed hresumed
      · exact h
    · exact h
  | input =>
    show Follows model (if _ then _ else _ : RunState).thread
    split
    · exact follows_started h
    · exact h
  | agent x =>
    show Follows model (if _ then _ else _ : RunState).thread
    split
    · cases hu : (agentNode budget s.thread.values x).2 with
      | error e => exact h
      | ok u => exact h.agent (receives_of_scripted he hu)
    · exact h
  | tools meets =>
    show Follows model (if _ then _ else _ : RunState).thread
    split
    · cases hu : toolsNode s.thread.values meets with
      | error e => exact h
      | ok u => exact h.tools hu
    · exact h
  | stop => exact h

/-- The repetition of a step is never met. -/
theorem not_stuck_of_scripted {s : RunState} (h : Follows model s.thread) {x : AgentMeets}
    (hx : Scripted model budget s (.agent x)) (text : String) :
    (agentNode budget s.thread.values x).2 ≠ .error (.agentStuck text) := by
  intro hstuck
  cases hasks : asks budget s.thread.values x with
  | error e =>
    rw [agentNode_of_error hasks] at hstuck
    obtain rfl := Except.error.inj hstuck
    unfold asks at hasks
    split at hasks
    · exact absurd hasks (by simp)
    · split at hasks
      · exact absurd hasks (by simp)
      · split at hasks <;> exact absurd hasks (by simp)
  | ok asked =>
    rcases hx asked hasks with hnone | hsome
    · rw [agentNode_of_none hasks hnone] at hstuck
      exact absurd hstuck (by simp)
    · rw [agentNode_of_some hasks hsome, invoke_of_asks hasks] at hstuck
      unfold receives at hstuck
      split at hstuck
      · exact absurd hstuck (by simp)
      · rw [if_neg h.not_stuck] at hstuck
        exact absurd hstuck (by simp)

end

/-- The calls of a conversation are those of the messages of the model. -/
theorem flatMap_calls (messages : List BaseMessage) :
    messages.flatMap BaseMessage.calls =
      (messages.filter (·.isAi)).flatMap BaseMessage.calls := by
  induction messages with
  | nil => rfl
  | cons m messages ih =>
    cases m with
    | ai content calls =>
      rw [List.filter_cons_of_pos rfl, List.flatMap_cons, List.flatMap_cons, ih]
    | _ =>
      rw [List.filter_cons_of_neg Bool.false_ne_true, List.flatMap_cons, ih]
      rfl

end

/-- **The scripted model goes on where it stopped**: whatever attempts are
started, resumed, interrupted and refused by the provider, in every state
the messages of the model are the first ones of the script, and so its
calls, the patch among them, are each asked for once and in order. The
graph is at its end only after all of them, and no attempt is given up as
stuck. -/
theorem script_goes_on (repr : List String → String) (spec : Shared.TaskSpec)
    (budget : Shared.Budget) (model : FakeScriptedModel) {es : List RunEvent}
    (hes : (runs repr spec budget).Admits (Scripted model budget) {} es) :
    let s := (runs repr spec budget).runFrom {} es
    (∃ n, s.thread.values.said = model.script n ∧
      s.thread.values.conversation.flatMap BaseMessage.calls = model.calls.take n) ∧
      (s.thread.values.messages ≠ [] → s.thread.next = none →
        s.thread.values.conversation.flatMap BaseMessage.calls = model.calls) ∧
      ∀ x, Scripted model budget s (.agent x) → ∀ text,
        (agentNode budget s.thread.values x).2 ≠ .error (.agentStuck text) := by
  intro s
  have hfollows : Follows model s.thread := by
    refine (runs repr spec budget).runFrom_of_admits (P := fun s => Follows model s.thread)
      (fun s e h he => follows_step h he) ⟨rfl, ?_, ?_⟩ hes
    · intro text htext
      exact absurd htext List.not_mem_nil
    · intro hne
      exact absurd rfl hne
  have hcalls : s.thread.values.conversation.flatMap BaseMessage.calls =
      model.calls.take s.thread.values.said.length := by
    rw [flatMap_calls, ← script_calls, ← hfollows.said]
    rfl
  refine ⟨⟨_, hfollows.said, hcalls⟩, fun hne hend => ?_, fun x hx text => ?_⟩
  · rw [hcalls]
    have hall := hfollows.finished hne hend
    exact List.take_of_length_le (by omega)
  · exact not_stuck_of_scripted hfollows hx text

/-- A patch to one file, and a test. -/
def smallScript : FakeScriptedModel where
  goldPatch := "--- a/f.py\n+++ b/f.py\n"
  failToPass := ["pytest -q"]

example : smallScript.targetFile = "f.py" := by decide +kernel

/-- An attempt that is stopped before its tools node, one the provider
refuses, and one that goes on. -/
def refusedOnce : List RunEvent :=
  [.run false none fun _ => none, .input,
    .agent { elapsed := 0, response := some (smallScript.answer 1) }, .stop,
    .run true none fun _ => some "out",
    .agent { elapsed := 0, response := none },
    .run true (some "again") fun _ => some "out",
    .agent { elapsed := 0, response := some (smallScript.answer 2) }]

/-- A response that is of the step the thread is at. -/
theorem scripted_of_length {model : FakeScriptedModel} {budget : Shared.Budget} {s : RunState}
    {x : AgentMeets} {n : ℕ} (hlength : s.thread.values.said.length = n)
    (hx : x.response = some (model.answer (n + 1))) : Scripted model budget s (.agent x) := by
  intro asked hasked
  refine .inr ?_
  rw [hx, invoke_of_asks hasked, hlength]

theorem refusedOnce_scripted :
    (runs plainRepr bugSpec fullBudget).Admits (Scripted smallScript fullBudget) {} refusedOnce := by
  refine ⟨trivial, trivial, scripted_of_length (n := 0) ?_ rfl, trivial, trivial, ?_, trivial,
    scripted_of_length (n := 1) ?_ rfl, trivial⟩
  · decide +kernel
  · exact fun _ _ => .inl rfl
  · decide +kernel

theorem script_goes_on_of_refused :
    let s := (runs plainRepr bugSpec fullBudget).runFrom {} refusedOnce
    s.thread.values.said.length = 2 ∧ ∃ n, s.thread.values.said = smallScript.script n ∧
      s.thread.values.conversation.flatMap BaseMessage.calls = smallScript.calls.take n :=
  ⟨by decide +kernel,
    (script_goes_on plainRepr bugSpec fullBudget smallScript refusedOnce_scripted).1⟩

end SelfAgent

end Runtime

end AgentReliability
