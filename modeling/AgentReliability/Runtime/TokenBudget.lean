import AgentReliability.Runtime.AgentLoop
/-!
# The token budget of a run, in an attempt

The budget holds for the run: what the earlier attempts have used is in the
command, as the difference of `tokens` and `remainingTokens`. An attempt is
within the budget if no call of the model is started once that difference
and the calls already made exceed it.

`SelfAgent` checks the counter of its thread instead, which a restart sets
to 0, and checks it once for the calls of the condenser and the model's
own. `InstrumentedMiniModel` starts from the command, and does not count an
answer it cannot parse.
-/

namespace AgentReliability

namespace Runtime

open ControlPlane

/-- **The budget is kept**, whatever the model and the tools answer. -/
def AgentAttempt.WithinBudget (d : DefaultAgent) (a : AgentAttempt) : Prop :=
  ∀ inputs, a.Meets inputs →
    ((a.machine d).run inputs).meter.Within a.priorTokens a.command.budget.tokens

namespace SelfLoop

variable (b : Budget) (l : SelfLoop)

/-- The model is not called any more. -/
def Idle : Prop := l.raised = true ∨ l.graph.next = .finish ∨ b.turns ≤ l.graph.turn

/-- The next agent node calls no condenser. -/
def Uncondensed : Prop := l.condenser = none ∨ foldable l.graph.messages = []

/-- One more call at most: the turns are spent with it, or the tokens are
spent already and the node finds out. -/
def LastCall : Prop :=
  l.Uncondensed ∧ (b.turns = l.graph.turn + 1 ∨ b.tokens < l.graph.usedTokens)

/-- The counter covers what the run has used before, and every call is
checked against it. -/
def Covers (prior : ℕ) : Prop := l.condenser = none ∧ prior ≤ l.graph.usedTokens

end SelfLoop

/-- **The counter an attempt starts with is good enough.** -/
def AgentAttempt.Metered (a : AgentAttempt) : Prop :=
  match a.start with
  | .self l =>
    l.Idle a.command.budget ∨ l.LastCall a.command.budget ∨ l.Covers a.priorTokens
  | .mini _ => a.wellFormed = true ∨ a.command.budget.turns = 1

namespace SelfLoop

variable {d : DefaultAgent} {b : Budget} {l : SelfLoop} {prior : ℕ}

/-- An agent node without a call of the condenser starts one call. -/
theorem invoke_of_uncondensed (h : l.Uncondensed) (i : NodeInput) :
    (l.invoke i).meter = l.meter.start ∧ (l.invoke i).condenser = l.condenser := by
  unfold invoke condenseMessages
  rcases h with h | h
  · rw [h]
    exact ⟨rfl, rfl⟩
  · rw [h]
    cases l.condenser <;> exact ⟨rfl, rfl⟩

/-! ## Attempts that keep the budget -/

/-- An idle loop stays idle, and calls nothing. -/
theorem Idle.step (h : l.Idle b) (x : AgentInput) :
    ∃ l', AgentLoop.step d b (.self l) x = .self l' ∧ l'.Idle b ∧ l'.meter = l.meter := by
  rcases step_cases (d := d) (b := b) (l := l) x with
    ⟨i, hraised, hnext, hx⟩ | ⟨outputs, hraised, hnext, hx⟩ | hx
  · have hturns : b.turns ≤ l.graph.turn := by
      rcases h with h | h | h
      · exact absurd hraised (by simp [h])
      · exact absurd hnext (by simp [h])
      · exact h
    have hraise : l.agentNode b i = l.raise := if_pos hturns
    exact ⟨_, hx, hraise ▸ .inl rfl, hraise ▸ rfl⟩
  · have hturns : b.turns ≤ l.graph.turn := by
      rcases h with h | h | h
      · exact absurd hraised (by simp [h])
      · exact absurd hnext (by simp [h])
      · exact h
    obtain ⟨hmeter, -, hturn, -⟩ := l.toolsNode_frame outputs
    exact ⟨_, hx, .inr (.inr (by omega)), hmeter⟩
  · exact ⟨l, hx, h, rfl⟩

/-- The one call of an agent node that is the last: nothing has been spent
when it is started, and the loop is idle after it. -/
theorem LastCall.agentNode (h : l.LastCall b) (hnew : l.meter = {}) (i : NodeInput) :
    (∀ n ∈ (l.agentNode b i).meter.starts, n = 0) ∧ (l.agentNode b i).Idle b := by
  obtain ⟨hcondense, hlast⟩ := h
  have hinvoke := (invoke_of_uncondensed hcondense i).1
  rw [hnew] at hinvoke
  have houtcome := agentNode_outcome (b := b) (l := l) i
  generalize l.agentNode b i = m at houtcome ⊢
  cases houtcome with
  | stopped => exact ⟨by simp [SelfLoop.raise, hnew], .inl rfl⟩
  | raised _ _ hmeter hraised => exact ⟨by simp [hmeter, hinvoke], .inl hraised⟩
  | answered _ _ _ hturn hused hbudget hmeter _ _ =>
    refine ⟨by simp [hmeter, hinvoke], .inr (.inr ?_)⟩
    rcases hlast with hlast | hlast <;> omega

/-- A loop that has not called the model, or is idle after a call that
found nothing spent. -/
def OneCall (b : Budget) (l : SelfLoop) : AgentLoop → Prop
  | .self m => m = l ∨ (m.Idle b ∧ ∀ n ∈ m.meter.starts, n = 0)
  | .mini _ => False

theorem OneCall.step (hnew : l.meter = {}) (hnext : l.raised = false → l.graph.next ≠ .tools)
    (h : l.Idle b ∨ l.LastCall b) {s : AgentLoop} (hs : OneCall b l s) (x : AgentInput) :
    OneCall b l (AgentLoop.step d b s x) := by
  cases s with
  | mini m => exact hs.elim
  | self m =>
    rcases hs with rfl | ⟨hidle, hzero⟩
    · rcases h with hidle | hlast
      · obtain ⟨m', hx, hidle', hmeter⟩ := hidle.step (d := d) x
        rw [hx]
        exact .inr ⟨hidle', by simp [hmeter, hnew]⟩
      · rcases step_cases (d := d) (b := b) (l := m) x with
          ⟨i, -, -, hx⟩ | ⟨outputs, hraised, htools, hx⟩ | hx
        · rw [hx]
          obtain ⟨hzero, hidle⟩ := hlast.agentNode hnew i
          exact .inr ⟨hidle, hzero⟩
        · exact absurd htools (hnext hraised)
        · rw [hx]
          exact .inl rfl
    · obtain ⟨m', hx, hidle', hmeter⟩ := hidle.step (d := d) x
      rw [hx]
      exact .inr ⟨hidle', hmeter ▸ hzero⟩

/-- **One call at most keeps any budget.** -/
theorem within_of_oneCall (hnew : l.meter = {}) (hnext : l.raised = false → l.graph.next ≠ .tools)
    (h : l.Idle b ∨ l.LastCall b) (hprior : prior ≤ b.tokens) (inputs : List AgentInput) :
    ((AgentLoop.machine d b (.self l)).run inputs).meter.Within prior b.tokens := by
  have hone := (AgentLoop.machine d b (.self l)).runFrom_stable (P := OneCall b l)
    (fun _ x hs => hs.step hnew hnext h x) (s := .self l) (.inl rfl) inputs
  change OneCall b l ((AgentLoop.machine d b (.self l)).run inputs) at hone
  generalize (AgentLoop.machine d b (.self l)).run inputs = s at hone ⊢
  cases s with
  | mini m => exact hone.elim
  | self m =>
    refine Meter.within_of_zero (fun n hn => ?_) hprior
    rcases hone with rfl | ⟨-, hzero⟩
    · simp [AgentLoop.meter, hnew] at hn
    · exact hzero n hn

/-- A loop without a condenser, whose counter covers what has been used:
until it raises the counter is exact, and within the budget. -/
def Covered (b : Budget) (base prior : ℕ) : AgentLoop → Prop
  | .self m =>
    m.meter.Within prior b.tokens ∧ (m.raised = false →
      m.condenser = none ∧ m.Exact base ∧ prior + m.meter.spent ≤ b.tokens)
  | .mini _ => False

theorem Covered.agentNode {base : ℕ} (hbase : prior ≤ base) (h : Covered b base prior (.self l))
    (hraised : l.raised = false) (i : NodeInput) :
    Covered b base prior (.self (l.agentNode b i)) := by
  obtain ⟨hwithin, hlive⟩ := h
  obtain ⟨hnone, hexact, hspent⟩ := hlive hraised
  obtain ⟨hmeter, hcondenser⟩ := invoke_of_uncondensed (.inl hnone) i
  have hstart : (l.invoke i).meter.Within prior b.tokens := hmeter ▸ hwithin.start hspent
  have hkeeps := hexact.agentNode (b := b) (i := i)
  have houtcome := agentNode_outcome (b := b) (l := l) i
  generalize l.agentNode b i = m at houtcome hkeeps ⊢
  cases houtcome with
  | stopped => exact ⟨hwithin, fun h => absurd h (by simp [SelfLoop.raise])⟩
  | raised _ _ hstarts hr =>
    refine ⟨fun n hn => ?_, fun h => absurd h (by simp [hr])⟩
    rw [hstarts] at hn
    exact hstart n hn
  | answered _ _ _ _ _ hbudget hspend hcondensed _ =>
    refine ⟨?_, fun hm => ⟨?_, hkeeps hm, ?_⟩⟩
    · rw [hspend]
      exact hstart.spend _
    · rw [hcondensed, hcondenser, hnone]
      rfl
    · -- The node has checked the counter, and the counter shows at least as much.
      have hused := (hkeeps hm).usedTokens
      omega

theorem Covered.step {base : ℕ} (hbase : prior ≤ base) {s : AgentLoop}
    (hs : Covered b base prior s) (x : AgentInput) :
    Covered b base prior (AgentLoop.step d b s x) := by
  cases s with
  | mini m => exact hs.elim
  | self m =>
    rcases step_cases (d := d) (b := b) (l := m) x with
      ⟨i, hraised, -, hx⟩ | ⟨outputs, hraised, -, hx⟩ | hx
    · rw [hx]
      exact hs.agentNode hbase hraised i
    · rw [hx]
      obtain ⟨hwithin, hlive⟩ := hs
      obtain ⟨hnone, ⟨hsettled, hused⟩, hspent⟩ := hlive hraised
      obtain ⟨hmeter, hcondenser, -, htokens, -⟩ := m.toolsNode_frame outputs
      refine ⟨?_, fun _ => ⟨hcondenser.trans hnone, ⟨?_, ?_⟩, ?_⟩⟩
      · rw [hmeter]
        exact hwithin
      · rw [hcondenser]
        exact hsettled
      · rw [htokens, hmeter]
        exact hused
      · rw [hmeter]
        exact hspent
    · rw [hx]
      exact hs

/-- **A counter that covers the run keeps its budget.** -/
theorem within_of_covers (hnew : l.meter = {}) (h : l.Covers prior) (hprior : prior ≤ b.tokens)
    (inputs : List AgentInput) :
    ((AgentLoop.machine d b (.self l)).run inputs).meter.Within prior b.tokens := by
  obtain ⟨hnone, hcovers⟩ := h
  have hinit : Covered b l.graph.usedTokens prior (.self l) := by
    refine ⟨hnew ▸ Meter.within_new, fun _ => ⟨hnone, ⟨?_, ?_⟩, ?_⟩⟩
    · rw [hnone]
      rfl
    · rw [hnew]
      rfl
    · rw [hnew]
      exact hprior
  have hcovered := (AgentLoop.machine d b (.self l)).runFrom_stable
    (fun _ x hs => hs.step hcovers x) hinit inputs
  change Covered b _ prior ((AgentLoop.machine d b (.self l)).run inputs) at hcovered
  generalize (AgentLoop.machine d b (.self l)).run inputs = s at hcovered ⊢
  cases s with
  | mini m => exact hcovered.elim
  | self m => exact hcovered.1

/-! ## Attempts that overrun it -/

/-- A call started beyond the budget, wherever the loop stands. -/
theorem not_within_agentNode (hturn : l.graph.turn < b.turns) {i : NodeInput}
    (helapsed : i.elapsed = 0) (hresponse : i.response = none)
    (hspent : b.tokens < prior +
      (condenseMessages i.condensed l.graph.messages l.condenser l.meter).2.spent) :
    ¬ (l.agentNode b i).meter.Within prior b.tokens := by
  unfold agentNode
  rw [if_neg (by omega), if_neg (by omega), hresponse]
  exact Meter.not_within_start hspent

end SelfLoop

/-! ### A turn that leaves tool messages to fold -/

theorem toolMessages_append (xs ys : List Message) :
    toolMessages (xs ++ ys) = toolMessages xs ++ toolMessages ys := List.filterMap_append

/-- **A long answer that eight more follow is folded.** -/
theorem mem_foldable {messages : List Message} {c : ToolCall} {content : ToolContent}
    {calls : List ToolCall} {outputs : List ToolContent}
    (hlong : pruneMinChars < content.text.length)
    (hmany : pruneKeepLastToolResults ≤ (toolMessages (answers calls outputs)).length) :
    c.id ∈ foldable (messages ++ answers (c :: calls) (content :: outputs)) := by
  have htools : toolMessages (messages ++ answers (c :: calls) (content :: outputs)) =
      toolMessages messages ++ (c.id, content) :: toolMessages (answers calls outputs) := by
    rw [toolMessages_append]
    rfl
  unfold foldable
  simp only
  rw [htools]
  refine List.mem_map.mpr ⟨(c.id, content), List.mem_filter.mpr ⟨?_, by simpa using hlong⟩, rfl⟩
  refine List.mem_of_getElem? (i := (toolMessages messages).length) ?_
  rw [List.getElem?_take_of_lt]
  · simp
  · rw [List.length_append, List.length_cons]
    omega

/-- Once there is something to fold, the condenser may use any amount. -/
theorem le_spent_condenseMessages {messages : List Message} (hfold : foldable messages ≠ [])
    (n : ℕ) (meter : Meter) :
    n ≤ (condenseMessages (fun _ => some n) messages (some {}) meter).2.spent := by
  have hmono : ∀ (ids : List ToolCallId) (s : Condenser × Meter),
      s.2.spent ≤ (ids.foldl (summarize fun _ => some n) s).2.spent := by
    intro ids
    induction ids with
    | nil => exact fun s => Nat.le_refl _
    | cons id ids ih =>
      intro s
      refine Nat.le_trans ?_ (ih _)
      unfold summarize
      split
      · exact Nat.le_refl _
      · exact Nat.le_add_right _ _
  obtain ⟨id, ids, hids⟩ := List.exists_cons_of_ne_nil hfold
  unfold condenseMessages
  simp only
  rw [hids, List.foldl_cons]
  refine Nat.le_trans ?_ (hmono ids _)
  exact Nat.le_add_left _ _

/-- A text the folding does not spare. -/
def longText : String := String.ofList (List.replicate 1501 'x')

def longCall (n : ℕ) : ToolCall := ⟨.issued ("call-" ++ toString n), .runCommand "pytest"⟩

/-- Nine calls with long answers. -/
def longCalls : List ToolCall := longCall 0 :: (List.range' 1 8).map longCall

def longOutputs : List ToolContent := .output longText :: List.replicate 8 (.output longText)

theorem foldable_longCalls (messages : List Message) :
    foldable (messages ++ answers longCalls longOutputs) ≠ [] := by
  have hlong : pruneMinChars < (ToolContent.output longText).text.length := by
    change 1500 < (String.ofList (List.replicate 1501 'x')).length
    rw [String.length_ofList, List.length_replicate]
    omega
  have hmem : (longCall 0).id ∈ foldable (messages ++ answers longCalls longOutputs) :=
    mem_foldable hlong (Nat.le_refl 8)
  exact List.ne_nil_of_mem hmem

/-- A signature other than the last one. -/
def freshSignature (signatures : List String) : String :=
  if signatures.getLast? = some "[a]" then "[b]" else "[a]"

theorem freshSignature_cases (signatures : List String) :
    freshSignature signatures = "[a]" ∨ freshSignature signatures = "[b]" := by
  unfold freshSignature
  split
  · exact .inr rfl
  · exact .inl rfl

/-- **New calls are not stuck.** -/
theorem not_stuck_freshSignature (signatures : List String) :
    stuck (keepSignatures signatures (freshSignature signatures)) (freshSignature signatures) =
      false := by
  rcases List.eq_nil_or_concat' signatures with rfl | ⟨before, last, rfl⟩
  · rfl
  · generalize hfresh : freshSignature (before ++ [last]) = signature
    have hne : last ≠ signature := by
      rw [← hfresh]
      unfold freshSignature
      rw [List.getLast?_concat]
      split
      · rename_i h
        rw [Option.some.inj h]
        decide
      · rename_i h
        exact fun hlast => h (congrArg some hlast)
    -- The last one before is among the three that are compared.
    have hmem : last ∈ keepSignatures (before ++ [last]) signature := by
      unfold keepSignatures
      simp only [List.append_assoc, List.length_append, List.length_cons, List.length_nil]
      rw [List.drop_append_of_le_length (by unfold maxStuckRepeats; omega)]
      exact List.mem_append_right _ (by simp)
    have hall : (keepSignatures (before ++ [last]) signature).all (· = signature) = false :=
      List.all_eq_false.mpr ⟨last, hmem, by simpa using hne⟩
    unfold stuck
    rw [hall, Bool.and_false, Bool.false_and]

/-- Nine calls for some tokens, which repeat nothing. -/
def longResponse (tokens : ℕ) (signatures : List String) : Response where
  promptTokens := tokens
  completionTokens := 0
  calls := longCalls
  signature := freshSignature signatures
  signature_eq := by
    refine ⟨fun h => ?_, fun h => absurd h (by decide)⟩
    rcases freshSignature_cases signatures with hfresh | hfresh
    · exact absurd (hfresh.symm.trans h) (by decide)
    · exact absurd (hfresh.symm.trans h) (by decide)

/-- A node that is answered at once. -/
def answeredNode (tokens : ℕ) (signatures : List String) : NodeInput where
  elapsed := 0
  condensed := fun _ => none
  response := some (longResponse tokens signatures)

/-- A node whose condenser uses more than the budget, and whose own call
raises. -/
def lastNode (b : Budget) : NodeInput where
  elapsed := 0
  condensed := fun _ => some (b.tokens + 1)
  response := none

namespace SelfLoop

variable {d : DefaultAgent} {b : Budget} {l : SelfLoop} {prior : ℕ}

/-- The loop after a turn of nine calls for some tokens. -/
def afterTurn (l : SelfLoop) (tokens : ℕ) : SelfLoop where
  graph := {
    messages := l.graph.messages ++ [.ai longCalls] ++ answers longCalls longOutputs
    next := .agent
    turn := l.graph.turn + 1
    usedTokens := l.graph.usedTokens + tokens
    stuckSignatures :=
      keepSignatures l.graph.stuckSignatures (freshSignature l.graph.stuckSignatures)
    calls_of_tools := fun h => absurd h (by decide) }
  condenser := (takeNewTokens l.condenser).2
  meter := l.meter.start.spend tokens

/-- **A turn the budget has room for is taken.** -/
theorem run_turn (hraised : l.raised = false) (hnext : l.graph.next = .agent)
    (hturn : l.graph.turn < b.turns) (hcondense : l.Uncondensed)
    (hsettled : (takeNewTokens l.condenser).1 = 0) {tokens : ℕ}
    (hroom : l.graph.usedTokens + tokens ≤ b.tokens) :
    AgentLoop.step d b
      (AgentLoop.step d b (.self l) (.node (answeredNode tokens l.graph.stuckSignatures)))
      (.tools longOutputs) = .self (l.afterTurn tokens) := by
  rw [step_node hraised hnext]
  obtain ⟨hmeter, hcondenser⟩ :=
    invoke_of_uncondensed hcondense (answeredNode tokens l.graph.stuckSignatures)
  have hnode : l.agentNode b (answeredNode tokens l.graph.stuckSignatures) =
      (l.invoke (answeredNode tokens l.graph.stuckSignatures)).receive b
        (longResponse tokens l.graph.stuckSignatures) := by
    unfold agentNode
    rw [if_neg (by omega), if_neg (show ¬ b.remainingSeconds <
      (answeredNode tokens l.graph.stuckSignatures).elapsed from Nat.not_lt_zero _)]
    rfl
  have hgraph : (l.invoke (answeredNode tokens l.graph.stuckSignatures)).graph = l.graph := rfl
  have hlive : (l.invoke (answeredNode tokens l.graph.stuckSignatures)).raised = false := hraised
  rw [hnode]
  generalize l.invoke (answeredNode tokens l.graph.stuckSignatures) = m at hmeter hcondenser hgraph hlive
  obtain ⟨graph, condenser, meter, raised⟩ := m
  simp only at hmeter hcondenser hgraph hlive
  subst hmeter hcondenser hgraph hlive
  unfold receive
  simp only [longResponse, hsettled, Nat.add_zero]
  rw [if_neg (by omega), not_stuck_freshSignature, if_neg Bool.false_ne_true,
    step_tools rfl rfl]
  unfold toolsNode
  simp only [danglingCalls_append_ai]
  rfl

/-- **An attempt that is not metered overruns the budget**, in one turn or
in two. -/
theorem exists_overrun (hraised : l.raised = false)
    (hnext : l.graph.next = .agent) (hturn : l.graph.turn < b.turns) (hnew : l.meter = {})
    (hcondenser : l.condenser = none ∨ l.condenser = some {})
    (hlast : ¬ l.LastCall b) (hcovers : ¬ l.Covers prior) :
    ∃ inputs : List AgentInput, (∀ x ∈ inputs, x.isFormatError = false) ∧
      ¬ ((AgentLoop.machine d b (.self l)).run inputs).meter.Within prior b.tokens := by
  by_cases hcondense : l.Uncondensed
  · -- There is another turn after the first, and the counter has room for one.
    have hturns : l.graph.turn + 1 < b.turns := by
      have hne : b.turns ≠ l.graph.turn + 1 := fun h => hlast ⟨hcondense, .inl h⟩
      omega
    have hroom : l.graph.usedTokens ≤ b.tokens :=
      Nat.le_of_not_lt fun h => hlast ⟨hcondense, .inr h⟩
    have hsettled : (takeNewTokens l.condenser).1 = 0 := by
      rcases hcondenser with h | h <;> rw [h] <;> rfl
    refine ⟨[.node (answeredNode (b.tokens - l.graph.usedTokens) l.graph.stuckSignatures),
      .tools longOutputs, .node (lastNode b)], by simp [AgentInput.isFormatError], ?_⟩
    have hrun : (AgentLoop.machine d b (.self l)).run
        [.node (answeredNode (b.tokens - l.graph.usedTokens) l.graph.stuckSignatures),
          .tools longOutputs, .node (lastNode b)] =
        .self ((l.afterTurn (b.tokens - l.graph.usedTokens)).agentNode b (lastNode b)) := by
      unfold Machine.run
      simp only [Machine.runFrom_cons, Machine.runFrom_nil, AgentLoop.machine_step,
        AgentLoop.machine_init]
      rw [run_turn hraised hnext hturn hcondense hsettled (by omega), step_node rfl rfl]
    rw [hrun]
    refine not_within_agentNode hturns rfl rfl ?_
    have hspent : (l.afterTurn (b.tokens - l.graph.usedTokens)).meter.spent =
        b.tokens - l.graph.usedTokens := by
      change l.meter.spent + _ = _
      rw [hnew]
      exact Nat.zero_add _
    rcases hcondenser with h | h
    · have hnone : (l.afterTurn (b.tokens - l.graph.usedTokens)).condenser = none := by
        change (takeNewTokens l.condenser).2 = none
        rw [h]
        rfl
      have hlt : l.graph.usedTokens < prior := by
        by_contra hge
        exact hcovers ⟨h, by omega⟩
      rw [hnone]
      change b.tokens < prior + (l.afterTurn (b.tokens - l.graph.usedTokens)).meter.spent
      omega
    · have hsome : (l.afterTurn (b.tokens - l.graph.usedTokens)).condenser = some {} := by
        change (takeNewTokens l.condenser).2 = some {}
        rw [h]
        rfl
      rw [hsome]
      have hfold : foldable (l.afterTurn (b.tokens - l.graph.usedTokens)).graph.messages ≠ [] :=
        foldable_longCalls _
      have hle := le_spent_condenseMessages hfold (b.tokens + 1)
        (l.afterTurn (b.tokens - l.graph.usedTokens)).meter
      exact Nat.lt_of_lt_of_le (Nat.lt_of_succ_le hle) (Nat.le_add_left _ _)
  · -- The first node calls the condenser before it calls the model.
    refine ⟨[.node (lastNode b)], by simp [AgentInput.isFormatError], ?_⟩
    have hrun : (AgentLoop.machine d b (.self l)).run [.node (lastNode b)] =
        .self (l.agentNode b (lastNode b)) := step_node (d := d) hraised hnext
    rw [hrun]
    refine not_within_agentNode hturn rfl rfl ?_
    have hsome : l.condenser = some {} := by
      rcases hcondenser with h | h
      · exact absurd (.inl h) hcondense
      · exact h
    rw [hsome]
    have hle := le_spent_condenseMessages (fun h => hcondense (.inr h)) (b.tokens + 1) l.meter
    exact Nat.lt_of_lt_of_le (Nat.lt_of_succ_le hle) (Nat.le_add_left _ _)

end SelfLoop

/-! ## Rounds of `DefaultAgent` -/

namespace MiniLoop

variable {d : DefaultAgent} {b : Budget} {l : MiniLoop}

/-- A loop whose counter has missed nothing: until it raises it is within
the budget. -/
def Counted (b : Budget) (prior : ℕ) : AgentLoop → Prop
  | .self _ => False
  | .mini l =>
    l.priorTokens = prior ∧ l.meter.spent = l.attemptTokens ∧ l.meter.Within prior b.tokens ∧
      (l.raised = false → prior + l.meter.spent ≤ b.tokens)

theorem Counted.round {prior : ℕ} (hbudget : d.catches .budgetExceeded = false)
    (h : Counted b prior (.mini l)) (hraised : l.raised = false) {x : MiniAnswer}
    (hx : ∀ tokens, x ≠ .formatError tokens) (elapsed : ℕ) :
    Counted b prior (.mini (l.round d b elapsed x)) := by
  obtain ⟨hprior, hspent, hwithin, hroom⟩ := h
  have hstart := hwithin.start (hroom hraised)
  unfold MiniLoop.round
  split
  · cases x with
    | message promptTokens completionTokens =>
      unfold query
      simp only
      by_cases hover : b.tokens < l.priorTokens + (l.attemptTokens + (promptTokens + completionTokens))
      · unfold usedTokensTotal
        rw [if_pos hover]
        simp only [hbudget]
        refine ⟨hprior, ?_, hstart.spend _, fun h => absurd h (by simp)⟩
        simp [hspent]
      · unfold usedTokensTotal
        rw [if_neg hover]
        refine ⟨hprior, ?_, hstart.spend _, fun _ => ?_⟩
        · simp [hspent]
        · simp only [Meter.spend_spent, Meter.start_spent]
          omega
    | formatError tokens => exact absurd rfl (hx tokens)
    | raised =>
      unfold query
      simp only
      split
      · exact ⟨hprior, hspent, hstart, fun _ => hroom hraised⟩
      · exact ⟨hprior, hspent, hstart, fun h => absurd h (by simp)⟩
  · exact ⟨hprior, hspent, hwithin, fun h => absurd h (by simp)⟩

theorem Counted.step {prior : ℕ} (hbudget : d.catches .budgetExceeded = false) {s : AgentLoop}
    (hs : Counted b prior s) {x : AgentInput} (hx : x.isFormatError = false) :
    Counted b prior (AgentLoop.step d b s x) := by
  cases s with
  | self l => exact hs.elim
  | mini l =>
    cases x with
    | node i => exact hs
    | tools outputs => exact hs
    | query elapsed answer =>
      unfold AgentLoop.step
      simp only
      split
      · rename_i hlive
        refine Counted.round hbudget hs hlive.1 (fun tokens h => ?_) elapsed
        rw [h] at hx
        exact absurd hx (by simp [AgentInput.isFormatError])
      · exact hs
    | submit =>
      unfold AgentLoop.step
      simp only
      split
      · exact hs
      · exact hs

/-- A loop that has asked the model once at most, and then with nothing
spent. -/
def AskedOnce : AgentLoop → Prop
  | .self _ => False
  | .mini l => (l.history = [] → l.meter = {}) ∧ ∀ n ∈ l.meter.starts, n = 0

theorem AskedOnce.step (hd : d.Documented) (hturns : b.turns = 1) {s : AgentLoop}
    (hs : AskedOnce s) (x : AgentInput) : AskedOnce (AgentLoop.step d b s x) := by
  cases s with
  | self l => exact hs.elim
  | mini l =>
    obtain ⟨hnew, hzero⟩ := hs
    cases x with
    | node i => exact ⟨hnew, hzero⟩
    | tools outputs => exact ⟨hnew, hzero⟩
    | query elapsed answer =>
      unfold AgentLoop.step
      simp only
      split
      · unfold MiniLoop.round
        by_cases hasks : d.asks b.turns b.remainingSeconds l.history elapsed
        · have hempty : l.history = [] := by
            by_contra hne
            have hpos := List.length_pos_iff.mpr hne
            rw [hd.stops (by omega) (by omega)] at hasks
            exact absurd hasks (by simp)
          have hstarts : (l.query b answer).1.meter.starts = [0] := by
            cases answer <;> simp [query, hnew hempty]
          rw [if_pos hasks]
          simp only
          split
          · exact ⟨fun h => absurd h (by simp), by simp [hstarts]⟩
          · split
            · exact ⟨fun h => absurd h (by simp), by simp [hstarts]⟩
            · exact ⟨fun h => absurd h (by simp), by simp [hstarts]⟩
        · rw [if_neg hasks]
          exact ⟨hnew, hzero⟩
      · exact ⟨hnew, hzero⟩
    | submit =>
      unfold AgentLoop.step
      simp only
      split
      · exact ⟨hnew, hzero⟩
      · exact ⟨hnew, hzero⟩

/-- **Counted answers keep the budget.** -/
theorem within_of_counted (hbudget : d.catches .budgetExceeded = false) {prior : ℕ}
    (hprior : prior ≤ b.tokens) {inputs : List AgentInput}
    (hinputs : ∀ x ∈ inputs, x.isFormatError = false) :
    ((AgentLoop.machine d b (.mini { priorTokens := prior })).run inputs).meter.Within prior
      b.tokens := by
  have hcounted := (AgentLoop.machine d b (.mini { priorTokens := prior })).runFrom_of_admits
    (P := Counted b prior) (C := fun _ x => x.isFormatError = false)
    (fun _ _ hs hx => hs.step hbudget hx) (s := .mini { priorTokens := prior })
    ⟨rfl, rfl, Meter.within_new, fun _ => hprior⟩
    (Machine.admits_of_forall _ (fun x hx _ => hinputs x hx) _)
  change Counted b prior ((AgentLoop.machine d b (.mini { priorTokens := prior })).run inputs)
    at hcounted
  generalize (AgentLoop.machine d b (.mini { priorTokens := prior })).run inputs = s at hcounted ⊢
  cases s with
  | self l => exact hcounted.elim
  | mini l => exact hcounted.2.2.1

theorem within_of_askedOnce (hd : d.Documented) (hturns : b.turns = 1) {prior : ℕ}
    (hprior : prior ≤ b.tokens) (inputs : List AgentInput) :
    ((AgentLoop.machine d b (.mini { priorTokens := prior })).run inputs).meter.Within prior
      b.tokens := by
  have honce := (AgentLoop.machine d b (.mini { priorTokens := prior })).runFrom_stable
    (P := AskedOnce) (fun _ x hs => hs.step hd hturns x) (s := .mini { priorTokens := prior })
    ⟨fun _ => rfl, fun n hn => absurd hn (by simp)⟩ inputs
  change AskedOnce ((AgentLoop.machine d b (.mini { priorTokens := prior })).run inputs) at honce
  generalize (AgentLoop.machine d b (.mini { priorTokens := prior })).run inputs = s at honce ⊢
  cases s with
  | self l => exact honce.elim
  | mini l => exact Meter.within_of_zero honce.2 hprior

/-- **An answer that cannot be parsed is not counted**: the model is asked
again, whatever it has used. -/
theorem overrun (hd : d.Documented) (hturns : 1 < b.turns) {prior : ℕ} :
    ¬ ((AgentLoop.machine d b (.mini { priorTokens := prior })).run
      [.query 0 (.formatError (b.tokens + 1)), .query 0 .raised]).meter.Within prior b.tokens := by
  have hfirst : AgentLoop.step d b (.mini { priorTokens := prior })
      (.query 0 (.formatError (b.tokens + 1))) =
        .mini {
          priorTokens := prior, turn := 1, history := [some .formatError]
          meter := (({} : Meter).start).spend (b.tokens + 1) } := by
    unfold AgentLoop.step
    simp only [and_self, if_true]
    unfold MiniLoop.round
    rw [if_pos (hd.asks_first (by omega))]
    simp [query, hd.catches_formatError]
  unfold Machine.run
  simp only [Machine.runFrom_cons, Machine.runFrom_nil, AgentLoop.machine_step,
    AgentLoop.machine_init]
  rw [hfirst]
  intro hwithin
  have hstart : b.tokens + 1 ∈ (AgentLoop.step d b (.mini {
      priorTokens := prior, turn := 1, history := [some .formatError]
      meter := (({} : Meter).start).spend (b.tokens + 1) }) (.query 0 .raised)).meter.starts := by
    unfold AgentLoop.step
    simp only [and_self, if_true]
    unfold MiniLoop.round
    rw [if_pos (hd.retries hturns)]
    by_cases hcatches : d.catches .other <;> simp [query, hcatches, AgentLoop.meter]
  have hle := hwithin _ hstart
  omega

end MiniLoop

/-! ## The budget, exactly -/

/-- **The token budget of a run**: an attempt keeps it, whatever the model
and the tools answer, exactly if it is metered. -/
theorem withinBudget_iff {d : DefaultAgent} (hd : d.Documented) (a : AgentAttempt) :
    a.WithinBudget d ↔ a.Metered := by
  have hprior : a.priorTokens ≤ a.command.budget.tokens := Nat.sub_le _ _
  unfold AgentAttempt.WithinBudget AgentAttempt.machine AgentAttempt.Metered AgentAttempt.start
  cases a.command.agentKind with
  | selfLanggraph =>
    obtain ⟨hnew, hcondenser, htools⟩ := selfStart_new a
    simp only
    constructor
    · intro hwithin
      by_contra hmetered
      simp only [not_or, SelfLoop.Idle] at hmetered
      obtain ⟨⟨hraised, hfinish, hturn⟩, hlast, hcovers⟩ := hmetered
      have hlive : a.selfStart.raised = false := by simpa using hraised
      have hnext : a.selfStart.graph.next = .agent := by
        cases h : a.selfStart.graph.next with
        | agent => rfl
        | tools => exact absurd h (htools hlive)
        | finish => exact absurd h hfinish
      obtain ⟨inputs, hmeets, hover⟩ := SelfLoop.exists_overrun (d := d) hlive hnext
        (Nat.lt_of_not_le hturn) hnew hcondenser hlast hcovers
      exact hover (hwithin inputs fun _ => hmeets)
    · intro hmetered inputs _
      rcases or_assoc.mpr hmetered with hcall | hcovers
      · exact SelfLoop.within_of_oneCall hnew htools hcall hprior inputs
      · exact SelfLoop.within_of_covers hnew hcovers hprior inputs
  | miniSwe =>
    simp only
    constructor
    · intro hwithin
      by_contra hmetered
      simp only [not_or] at hmetered
      obtain ⟨hformed, hturns⟩ := hmetered
      have hpos : 0 < a.command.budget.turns := a.valid.2.2.2
      exact MiniLoop.overrun hd (by omega) (hwithin _ fun h => absurd h hformed)
    · intro hmetered inputs hmeets
      rcases hmetered with hformed | hturns
      · exact MiniLoop.within_of_counted hd.raises_budgetExceeded hprior (hmeets hformed)
      · exact MiniLoop.within_of_askedOnce hd hturns hprior inputs

/-! ### A restart, and an answer without a call -/

/-- A driver that keeps its two limits, and gives up after three format
errors in a row. -/
def limitedAgent : DefaultAgent where
  asks stepLimit wallTime history elapsed :=
    (stepLimit = 0 || history.length < stepLimit) && (wallTime = 0 || elapsed < wallTime) &&
      (history.reverse.takeWhile (· = some .formatError)).length < 3
  catches e := e = .formatError

theorem limitedAgent_documented : limitedAgent.Documented where
  stops := by
    intro stepLimit wallTime elapsed history hpos hle
    have hne : stepLimit ≠ 0 := by omega
    have hge : ¬ history.length < stepLimit := by omega
    simp [limitedAgent, hne, hge]
  asks_first := by
    intro stepLimit wallTime hpos
    simp only [limitedAgent, List.length_nil]
    rcases Nat.eq_zero_or_pos wallTime with h | h <;> simp [h, hpos]
  retries := by
    intro stepLimit wallTime hlt
    simp only [limitedAgent, List.length_cons, List.length_nil]
    rcases Nat.eq_zero_or_pos wallTime with h | h <;> simp [h, hlt]
  catches_formatError := rfl
  raises_budgetExceeded := rfl

/-- A command of a fixture run with 1000 tokens. -/
def fixtureCommand (agentKind : AgentKind) (attemptNo remainingTokens : ℕ) : RunCommand where
  snapshot := none
  commandId := runCommandId 0 .startRun attemptNo
  type := .startRun
  runId := 0
  attemptNo
  agentKind
  repo := { path := "/fixtures", baseCommit := "main" }
  taskSpec := {
    fixtureId := some "py-logic-001", description := "fix", workdir := ".", allowedPaths := ["**"]
    staticCheck := [], failToPass := ["pytest"], passToPass := [], acceptanceCriteria := []
    testPatch := none }
  budget := { tokens := 1000, seconds := 900, turns := 20, remainingTokens, remainingSeconds := 900 }
  checkpointId := none

/-- No thread yet. -/
def emptyThread : GraphState where
  calls_of_tools := fun h => Node.noConfusion h

/-- The thread of an attempt that has finished, with 500 tokens used. -/
def finishedThread : GraphState where
  messages := initialMessages ++ [.ai []]
  next := .finish
  turn := 1
  usedTokens := 500
  stuckSignatures := ["[]"]
  calls_of_tools := fun h => Node.noConfusion h

/-- The first attempt of a run. -/
def firstAttempt (agentKind : AgentKind) : AgentAttempt where
  command := fixtureCommand agentKind 1 1000
  fixture := rfl
  valid := by cases agentKind <;> decide
  condense := false
  thread := emptyThread
  replayed := []
  feedback := none
  wellFormed := false

/-- The second attempt of a run, restarted after the first has failed. -/
def restartedAttempt : AgentAttempt where
  command := fixtureCommand .selfLanggraph 2 500
  fixture := rfl
  valid := by decide
  condense := false
  thread := finishedThread
  replayed := []
  feedback := none
  wellFormed := true

theorem withinBudget_of_first : (firstAttempt .selfLanggraph).WithinBudget limitedAgent :=
  (withinBudget_iff limitedAgent_documented _).mpr (.inr (.inr ⟨rfl, Nat.le_refl _⟩))

/-- An answer of 900 tokens with a call. -/
def oneCall : Response where
  promptTokens := 800
  completionTokens := 100
  calls := [⟨.issued "call", .runCommand "pytest"⟩]
  signature := "[run_command]"
  signature_eq := by decide

/-- **A restart counts from zero, and an answer without a call is not
counted**: either agent calls the model with more than the budget spent. -/
theorem calls_over_budget :
    ¬ ((restartedAttempt.machine limitedAgent).run [
        .node { elapsed := 0, condensed := fun _ => none, response := some oneCall },
        .tools [.output "1 failed"],
        .node { elapsed := 60, condensed := fun _ => none, response := none }]).meter.Within
      restartedAttempt.priorTokens restartedAttempt.command.budget.tokens ∧
    ¬ (((firstAttempt .miniSwe).machine limitedAgent).run [
        .query 0 (.formatError 1100), .query 60 (.message 800 100)]).meter.Within
      (firstAttempt .miniSwe).priorTokens (firstAttempt .miniSwe).command.budget.tokens := by
  decide

end Runtime

end AgentReliability
