import AgentReliability.Common.PythonJson
import Mathlib.Tactic.Common
/-!
# The messages of an agent

What `SelfAgent` keeps of its conversation, and `prune_messages`, which
folds the results of older tool calls before the model is asked. A provider
takes a list of messages only if every tool call is answered right after the
message it is of, in order, and nothing else is an answer.
-/

namespace AgentReliability

namespace Runtime

namespace SelfAgent

/-! ## Messages -/

/-- The `content` of a message: a text, or blocks. -/
inductive MessageContent where
  | text (s : String)
  | blocks (items : List PyValue)

/-- An entry of `tool_calls`. -/
structure AiToolCall where
  name : String
  args : List (String × PyValue)
  id : String

inductive BaseMessage where
  | system (content : MessageContent)
  | human (content : MessageContent)
  | ai (content : MessageContent) (toolCalls : List AiToolCall)
  | tool (content : MessageContent) (toolCallId : String)

namespace BaseMessage

/-- `isinstance(m, ToolMessage)`. -/
def isTool : BaseMessage → Bool
  | tool .. => true
  | _ => false

def isAi : BaseMessage → Bool
  | ai .. => true
  | _ => false

def content : BaseMessage → MessageContent
  | system content | human content | ai content _ | tool content _ => content

/-- The content, if it is a text. -/
def textContent (m : BaseMessage) : String :=
  match m.content with
  | .text s => s
  | .blocks _ => ""

end BaseMessage

/-- A message of a thread, with the id its sender has given it; one without
gets an id that is new. -/
structure ThreadMessage where
  id : Option String := none
  message : BaseMessage

/-- One message of `add_messages`: it replaces the message that has its
id. -/
def addMessage (left : List ThreadMessage) (m : ThreadMessage) : List ThreadMessage :=
  match m.id with
  | none => left ++ [m]
  | some id =>
    match left.findIdx? (·.id = some id) with
    | some i => left.set i m
    | none => left ++ [m]

/-- `add_messages`. -/
def addMessages (left right : List ThreadMessage) : List ThreadMessage := right.foldl addMessage left

/-- Messages without an id are appended. -/
theorem addMessages_of_none (left : List ThreadMessage) {right : List ThreadMessage}
    (h : ∀ m ∈ right, m.id = none) : addMessages left right = left ++ right := by
  induction right generalizing left with
  | nil => exact (List.append_nil left).symm
  | cons m right ih =>
    obtain ⟨hm, hright⟩ := List.forall_mem_cons.mp h
    show addMessages (addMessage left m) right = _
    rw [addMessage, hm, ih _ hright, List.append_assoc]
    rfl

/-- A message with a new id is appended. -/
theorem addMessages_of_new {left : List ThreadMessage} {m : ThreadMessage}
    (h : ∀ other ∈ left, m.id ≠ none → other.id ≠ m.id) : addMessages left [m] = left ++ [m] := by
  show addMessage left m = _
  unfold addMessage
  cases hid : m.id with
  | none => rfl
  | some id =>
    have hnone : left.findIdx? (·.id = some id) = none := by
      rw [List.findIdx?_eq_none_iff]
      intro other hother
      exact decide_eq_false (by rw [← hid]; exact h other hother (by simp [hid]))
    simp only [hnone]

/-! ## `prune_messages` -/

/-- `PRUNE_KEEP_LAST_TOOL_RESULTS`. -/
def pruneKeepLastToolResults : ℕ := 8

/-- `PRUNE_MIN_CHARS`. -/
def pruneMinChars : ℕ := 1500

/-- The indexes of the tool results. -/
def toolIndexes (messages : List BaseMessage) : List ℕ :=
  (messages.zipIdx.filter (·.1.isTool)).map Prod.snd

/-- The indexes to fold: all but the last. -/
def toFold (messages : List BaseMessage) : List ℕ :=
  (toolIndexes messages).take ((toolIndexes messages).length - pruneKeepLastToolResults)

/-- The text a result is folded to, without a condenser. -/
def foldPlaceholder (chars : ℕ) : String :=
  "[已折叠] 此前的工具结果（" ++ toString chars ++ " 字符）。" ++
    "如需内容请重新调用工具（read_file 可用行范围）。"

/-- What the calls of the condenser return, by how many were made before;
it can raise. -/
abbrev Condense := ℕ → String → String → Option String

/-- The folded text of a result. -/
def foldedText (condense : Option Condense) (calls : ℕ) (callId content : String) : Option String :=
  match condense with
  | some condense => condense calls callId content
  | none => some (foldPlaceholder content.length)

/-- A message is folded: an older result, that is long. -/
def isFolded (folds : List ℕ) (i : ℕ) (m : BaseMessage) : Bool :=
  i ∈ folds ∧ pruneMinChars < m.textContent.length

/-- One message of the loop, and how many calls the condenser has had. -/
def pruneMessage (condense : Option Condense) (folds : List ℕ) (i calls : ℕ) (m : BaseMessage) :
    Option (BaseMessage × ℕ) :=
  match m with
  | .tool content callId =>
    if isFolded folds i (.tool content callId) then
      (foldedText condense calls callId (BaseMessage.tool content callId).textContent).map
        fun folded => (.tool (.text folded) callId, calls + 1)
    else some (.tool content callId, calls)
  | m => some (m, calls)

/-- The loop of `prune_messages`, from an index on. -/
def pruneFrom (condense : Option Condense) (folds : List ℕ) :
    ℕ → ℕ → List BaseMessage → Option (List BaseMessage)
  | _, _, [] => some []
  | i, calls, m :: rest => do
    let (m, calls) ← pruneMessage condense folds i calls m
    let rest ← pruneFrom condense folds (i + 1) calls rest
    some (m :: rest)

/-- `prune_messages`. -/
def pruneMessages (condense : Option Condense) (messages : List BaseMessage) :
    Option (List BaseMessage) :=
  pruneFrom condense (toFold messages) 0 0 messages

/-! ### What is kept -/

/-- The message is kept, or the content of a tool result is replaced. -/
def Kept (m pruned : BaseMessage) : Prop :=
  pruned = m ∨ ∃ content text callId, m = .tool content callId ∧ pruned = .tool (.text text) callId

section

variable {condense : Option Condense} {folds : List ℕ}

theorem pruneMessage_kept {i calls calls' : ℕ} {m pruned : BaseMessage}
    (h : pruneMessage condense folds i calls m = some (pruned, calls')) :
    Kept m pruned ∧ (i ∉ folds → pruned = m) := by
  have hsame : some (m, calls) = some (pruned, calls') → Kept m pruned ∧ (i ∉ folds → pruned = m) := by
    intro heq
    obtain ⟨rfl, -⟩ := Prod.mk.inj (Option.some.inj heq)
    exact ⟨.inl rfl, fun _ => rfl⟩
  unfold pruneMessage at h
  split at h
  · next content callId =>
    split at h
    · next hfolded =>
      obtain ⟨folded, -, heq⟩ := Option.map_eq_some_iff.mp h
      obtain ⟨rfl, -⟩ := Prod.mk.inj heq
      simp only [isFolded, decide_eq_true_eq] at hfolded
      exact ⟨.inr ⟨_, _, _, rfl, rfl⟩, fun hnot => absurd hfolded.1 hnot⟩
    · exact hsame h
  · exact hsame h

theorem pruneFrom_cons {i calls : ℕ} {m : BaseMessage} {rest pruned : List BaseMessage}
    (h : pruneFrom condense folds i calls (m :: rest) = some pruned) :
    ∃ m' calls' rest', pruneMessage condense folds i calls m = some (m', calls') ∧
      pruneFrom condense folds (i + 1) calls' rest = some rest' ∧ pruned = m' :: rest' := by
  simp only [pruneFrom, Option.bind_eq_bind, Option.bind_eq_some_iff] at h
  obtain ⟨⟨m', calls'⟩, hm, rest', hrest, heq⟩ := h
  exact ⟨m', calls', rest', hm, hrest, (Option.some.inj heq).symm⟩

theorem pruneFrom_kept {i calls : ℕ} {messages pruned : List BaseMessage}
    (h : pruneFrom condense folds i calls messages = some pruned) :
    List.Forall₂ Kept messages pruned := by
  induction messages generalizing i calls pruned with
  | nil =>
    obtain rfl := Option.some.inj h
    exact .nil
  | cons m rest ih =>
    obtain ⟨m', calls', rest', hm, hrest, rfl⟩ := pruneFrom_cons h
    exact .cons (pruneMessage_kept hm).1 (ih hrest)

/-- A message whose index is not folded is kept. -/
theorem pruneFrom_getElem {i calls : ℕ} {messages pruned : List BaseMessage}
    (h : pruneFrom condense folds i calls messages = some pruned) {j : ℕ} (hj : i + j ∉ folds) :
    pruned[j]? = messages[j]? := by
  induction messages generalizing i calls pruned j with
  | nil =>
    obtain rfl := Option.some.inj h
    rfl
  | cons m rest ih =>
    obtain ⟨m', calls', rest', hm, hrest, rfl⟩ := pruneFrom_cons h
    cases j with
    | zero => exact congrArg some ((pruneMessage_kept hm).2 hj)
    | succ j =>
      refine ih hrest (j := j) ?_
      rw [Nat.add_assoc, Nat.add_comm 1 j]
      exact hj

/-- The tool results after a message are the indexes above its own. -/
theorem countP_toolIndexes (messages : List BaseMessage) (s j : ℕ) :
    (((messages.zipIdx s).filter (·.1.isTool)).map Prod.snd).countP (fun k => s + j < k) =
      (messages.drop (j + 1)).countP (·.isTool) := by
  induction messages generalizing s j with
  | nil => rfl
  | cons m rest ih =>
    have hlater : (((rest.zipIdx (s + 1)).filter (·.1.isTool)).map Prod.snd).countP
        (fun k => s + j < k) = (rest.drop j).countP (·.isTool) := by
      cases j with
      | zero =>
        have hall : ∀ k ∈ ((rest.zipIdx (s + 1)).filter (·.1.isTool)).map Prod.snd,
            decide (s + 0 < k) = true := by
          intro k hk
          obtain ⟨⟨m, k⟩, hmem, rfl⟩ := List.mem_map.mp hk
          have hle := List.le_snd_of_mem_zipIdx (List.mem_of_mem_filter hmem)
          exact decide_eq_true (by show s + 0 < k; omega)
        rw [List.countP_eq_length.mpr hall, List.length_map, ← List.countP_eq_length_filter,
          List.drop_zero]
        have hfst := List.countP_map (p := BaseMessage.isTool) (f := Prod.fst)
          (l := rest.zipIdx (s + 1))
        rw [List.zipIdx_map_fst] at hfst
        exact hfst.symm
      | succ j =>
        have h := ih (s + 1) j
        rwa [Nat.add_right_comm, Nat.add_assoc] at h
    rw [List.zipIdx_cons, List.drop_succ_cons]
    by_cases htool : m.isTool
    · rw [List.filter_cons_of_pos (by exact htool), List.map_cons, List.countP_cons_of_neg, hlater]
      simp
    · rw [List.filter_cons_of_neg (by simpa using htool), hlater]

theorem toolIndexes_pairwise (messages : List BaseMessage) :
    (toolIndexes messages).Pairwise (· < ·) := by
  have hsublist : (toolIndexes messages).Sublist (messages.zipIdx.map Prod.snd) :=
    List.filter_sublist.map Prod.snd
  rw [List.zipIdx_map_snd] at hsublist
  exact (List.pairwise_lt_range').sublist hsublist

/-- **A message that is folded has eight tool results after it.** -/
theorem later_of_mem_toFold {messages : List BaseMessage} {j : ℕ} (h : j ∈ toFold messages) :
    pruneKeepLastToolResults ≤ (messages.drop (j + 1)).countP (·.isTool) := by
  rw [← countP_toolIndexes messages 0 j]
  show _ ≤ (toolIndexes messages).countP _
  set indexes := toolIndexes messages
  have hsplit := List.take_append_drop (indexes.length - pruneKeepLastToolResults) indexes
  have hpair := toolIndexes_pairwise messages
  change indexes.Pairwise _ at hpair
  have hmem : j ∈ indexes.take (indexes.length - pruneKeepLastToolResults) := h
  have hlength : pruneKeepLastToolResults ≤ indexes.length := by
    by_contra hlt
    rw [Nat.sub_eq_zero_of_le (by omega), List.take_zero] at hmem
    exact absurd hmem List.not_mem_nil
  rw [← hsplit, List.pairwise_append] at hpair
  have hall : ∀ k ∈ indexes.drop (indexes.length - pruneKeepLastToolResults),
      decide (0 + j < k) = true := by
    intro k hk
    exact decide_eq_true (by rw [Nat.zero_add]; exact hpair.2.2 j hmem k hk)
  have hdrop : (indexes.drop (indexes.length - pruneKeepLastToolResults)).countP
      (fun k => decide (0 + j < k)) = pruneKeepLastToolResults := by
    rw [List.countP_eq_length.mpr hall, List.length_drop]
    omega
  calc pruneKeepLastToolResults
      = (indexes.drop (indexes.length - pruneKeepLastToolResults)).countP
          (fun k => decide (0 + j < k)) := hdrop.symm
    _ ≤ indexes.countP (fun k => decide (0 + j < k)) :=
        (List.drop_sublist _ indexes).countP_le

/-- **What `prune_messages` keeps**: the number and the order of the
messages, all that are not tool results, every call id, and the last eight
tool results. -/
structure Pruned (messages pruned : List BaseMessage) : Prop where
  kept : List.Forall₂ Kept messages pruned
  recent : ∀ j, (messages.drop (j + 1)).countP (·.isTool) < pruneKeepLastToolResults →
    pruned[j]? = messages[j]?

theorem pruneMessages_pruned {messages pruned : List BaseMessage}
    (h : pruneMessages condense messages = some pruned) : Pruned messages pruned := by
  refine ⟨pruneFrom_kept h, fun j hj => pruneFrom_getElem h ?_⟩
  rw [Nat.zero_add]
  intro hmem
  have := later_of_mem_toFold hmem
  omega

/-- Without a condenser, nothing is raised. -/
theorem pruneFrom_none (folds : List ℕ) (i calls : ℕ) (messages : List BaseMessage) :
    ∃ pruned, pruneFrom none folds i calls messages = some pruned := by
  induction messages generalizing i calls with
  | nil => exact ⟨[], rfl⟩
  | cons m rest ih =>
    obtain ⟨⟨m', calls'⟩, hm⟩ : ∃ pruned, pruneMessage none folds i calls m = some pruned := by
      unfold pruneMessage foldedText
      split
      · split <;> exact ⟨_, rfl⟩
      · exact ⟨_, rfl⟩
    obtain ⟨rest', hrest⟩ := ih (i + 1) calls'
    exact ⟨m' :: rest', by simp [pruneFrom, hm, hrest]⟩

/-! ### The objects -/

/-- The messages that exist, by where they are. -/
structure Heap where
  next : ℕ
  object : ℕ → BaseMessage

/-- A new message. -/
def Heap.alloc (heap : Heap) (m : BaseMessage) : Heap where
  next := heap.next + 1
  object := Function.update heap.object heap.next m

/-- One message of the loop: one that is folded is a new one, and every
other is the one that was given. -/
def pruneObject (condense : Option Condense) (folds : List ℕ) (i calls ref : ℕ) (heap : Heap) :
    Option ((ℕ × ℕ) × Heap) :=
  match heap.object ref with
  | .tool content callId =>
    if isFolded folds i (.tool content callId) then
      (foldedText condense calls callId (BaseMessage.tool content callId).textContent).map
        fun folded => ((heap.next, calls + 1), heap.alloc (.tool (.text folded) callId))
    else some ((ref, calls), heap)
  | _ => some ((ref, calls), heap)

/-- `prune_messages`, of references to messages. -/
def pruneObjects (condense : Option Condense) (folds : List ℕ) :
    ℕ → ℕ → List ℕ → Heap → Option (List ℕ × Heap)
  | _, _, [], heap => some ([], heap)
  | i, calls, ref :: refs, heap => do
    let ((ref, calls), heap) ← pruneObject condense folds i calls ref heap
    let (refs, heap) ← pruneObjects condense folds (i + 1) calls refs heap
    some (ref :: refs, heap)

/-- The messages that were there are there, as they were. -/
structure Heap.Unmodified (heap heap' : Heap) : Prop where
  next : heap.next ≤ heap'.next
  object : ∀ ref < heap.next, heap'.object ref = heap.object ref

theorem Heap.Unmodified.refl (heap : Heap) : heap.Unmodified heap := ⟨le_rfl, fun _ _ => rfl⟩

theorem Heap.Unmodified.trans {h₁ h₂ h₃ : Heap} (h : h₁.Unmodified h₂) (h' : h₂.Unmodified h₃) :
    h₁.Unmodified h₃ :=
  ⟨h.next.trans h'.next, fun ref href =>
    (h'.object ref (href.trans_le h.next)).trans (h.object ref href)⟩

theorem Heap.unmodified_alloc (heap : Heap) (m : BaseMessage) : heap.Unmodified (heap.alloc m) := by
  refine ⟨Nat.le_succ _, fun ref href => ?_⟩
  show Function.update heap.object heap.next m ref = _
  rw [Function.update_of_ne (by omega)]

theorem pruneObject_spec {i calls ref ref' calls' : ℕ} {heap heap' : Heap}
    (h : pruneObject condense folds i calls ref heap = some ((ref', calls'), heap'))
    (href : ref < heap.next) :
    heap.Unmodified heap' ∧ ref' < heap'.next ∧
      pruneMessage condense folds i calls (heap.object ref) = some (heap'.object ref', calls') := by
  have hsame : ∀ r, some ((ref, calls), heap) = some r → r = ((ref', calls'), heap') →
      heap.Unmodified heap' ∧ ref' < heap'.next ∧
        some (heap.object ref, calls) = some (heap'.object ref', calls') := by
    intro r heq hr
    obtain ⟨hpair, rfl⟩ := Prod.mk.inj ((Option.some.inj heq).trans hr)
    obtain ⟨rfl, rfl⟩ := Prod.mk.inj hpair
    exact ⟨.refl heap, href, rfl⟩
  unfold pruneObject at h
  split at h
  · next content callId hobject =>
    have hmessage : pruneMessage condense folds i calls (heap.object ref) =
        if isFolded folds i (.tool content callId) then
          (foldedText condense calls callId (BaseMessage.tool content callId).textContent).map
            fun folded => (.tool (.text folded) callId, calls + 1)
        else some (.tool content callId, calls) := by
      rw [hobject]
      rfl
    rw [hmessage]
    split at h
    · next hfolded =>
      obtain ⟨folded, htext, heq⟩ := Option.map_eq_some_iff.mp h
      obtain ⟨hpair, rfl⟩ := Prod.mk.inj heq
      obtain ⟨rfl, rfl⟩ := Prod.mk.inj hpair
      refine ⟨heap.unmodified_alloc _, Nat.lt_succ_self _, ?_⟩
      rw [if_pos hfolded, htext, Option.map_some]
      show _ = some (Function.update heap.object heap.next _ heap.next, calls + 1)
      rw [Function.update_self]
    · next hfolded =>
      rw [if_neg hfolded, ← hobject]
      exact hsame _ h rfl
  · next hnot =>
    have hkeep : pruneMessage condense folds i calls (heap.object ref) =
        some (heap.object ref, calls) := by
      unfold pruneMessage
      split
      · next content callId hobject => exact absurd hobject (hnot content callId)
      · rfl
    rw [hkeep]
    exact hsame _ h rfl

/-- **`prune_messages` does not modify what it is given**: the messages it
returns are those of the loop, and every message there was is as it was. -/
theorem pruneObjects_spec {i calls : ℕ} {refs refs' : List ℕ} {heap heap' : Heap}
    (h : pruneObjects condense folds i calls refs heap = some (refs', heap'))
    (hrefs : ∀ ref ∈ refs, ref < heap.next) :
    heap.Unmodified heap' ∧
      pruneFrom condense folds i calls (refs.map heap.object) = some (refs'.map heap'.object) := by
  induction refs generalizing i calls refs' heap heap' with
  | nil =>
    obtain ⟨rfl, rfl⟩ := Prod.mk.inj (Option.some.inj h)
    exact ⟨.refl heap, rfl⟩
  | cons ref refs ih =>
    obtain ⟨href, hlater⟩ := List.forall_mem_cons.mp hrefs
    simp only [pruneObjects, Option.bind_eq_bind, Option.bind_eq_some_iff] at h
    obtain ⟨⟨⟨ref₁, calls₁⟩, heap₁⟩, hone, ⟨refs₁, heap₂⟩, hrest, heq⟩ := h
    obtain ⟨rfl, rfl⟩ := Prod.mk.inj (Option.some.inj heq)
    obtain ⟨hfirst, href₁, hmessage⟩ := pruneObject_spec hone href
    obtain ⟨hsecond, hmessages⟩ := ih hrest fun r hr => (hlater r hr).trans_le hfirst.next
    refine ⟨hfirst.trans hsecond, ?_⟩
    have hsame : refs.map heap₁.object = refs.map heap.object :=
      List.map_congr_left fun r hr => hfirst.object r (hlater r hr)
    rw [hsame] at hmessages
    simp only [List.map_cons, pruneFrom, hmessage, hmessages, Option.bind_eq_bind, Option.bind_some,
      hsecond.object ref₁ href₁]

/-! ## Well-formed conversations -/

/-- The messages answer the calls, in order. -/
def AnswersOf (calls : List AiToolCall) (answers : List BaseMessage) : Prop :=
  List.Forall₂ (fun call m => ∃ content, m = .tool content call.id) calls answers

/-- **Every tool call is answered right after its message, in order, and
nothing else is an answer.** -/
inductive WellFormed : List BaseMessage → Prop where
  | nil : WellFormed []
  | other {m : BaseMessage} {rest : List BaseMessage} (hai : m.isAi = false)
      (htool : m.isTool = false) (hrest : WellFormed rest) : WellFormed (m :: rest)
  | turn {content : MessageContent} {calls : List AiToolCall} {answers rest : List BaseMessage}
      (hanswers : AnswersOf calls answers) (hrest : WellFormed rest) :
      WellFormed (.ai content calls :: (answers ++ rest))

theorem WellFormed.append {ms ns : List BaseMessage} (h : WellFormed ms) (h' : WellFormed ns) :
    WellFormed (ms ++ ns) := by
  induction h with
  | nil => exact h'
  | other hai htool _ ih => exact .other hai htool ih
  | turn hanswers _ ih =>
    rw [List.cons_append, List.append_assoc]
    exact .turn hanswers ih

theorem AnswersOf.isAi {calls : List AiToolCall} {answers : List BaseMessage}
    (h : AnswersOf calls answers) : ∀ m ∈ answers, m.isAi = false := by
  induction h with
  | nil => simp
  | cons hm _ ih =>
    obtain ⟨content, rfl⟩ := hm
    exact List.forall_mem_cons.mpr ⟨rfl, ih⟩

/-- Answers that are kept are answers. -/
theorem AnswersOf.kept {calls : List AiToolCall} {answers rest pruned : List BaseMessage}
    (h : AnswersOf calls answers) (hkept : List.Forall₂ Kept (answers ++ rest) pruned) :
    ∃ answers' rest', pruned = answers' ++ rest' ∧ AnswersOf calls answers' ∧
      List.Forall₂ Kept rest rest' := by
  induction h generalizing pruned with
  | nil => exact ⟨[], pruned, rfl, .nil, hkept⟩
  | @cons call m calls answers hm _ ih =>
    obtain ⟨m', pruned', hm', hrest, rfl⟩ := List.forall₂_cons_left_iff.mp hkept
    obtain ⟨answers', rest', rfl, hanswers, hrest'⟩ := ih hrest
    refine ⟨m' :: answers', rest', rfl, .cons ?_ hanswers, hrest'⟩
    obtain ⟨content, rfl⟩ := hm
    rcases hm' with rfl | ⟨_, text, callId, heq, rfl⟩
    · exact ⟨content, rfl⟩
    · obtain ⟨-, rfl⟩ := BaseMessage.tool.inj heq
      exact ⟨.text text, rfl⟩

/-- **Pruning keeps a conversation well-formed.** -/
theorem WellFormed.kept {ms pruned : List BaseMessage} (h : WellFormed ms)
    (hkept : List.Forall₂ Kept ms pruned) : WellFormed pruned := by
  induction h generalizing pruned with
  | nil =>
    obtain rfl := List.forall₂_nil_left_iff.mp hkept
    exact .nil
  | other hai htool _ ih =>
    obtain ⟨m', pruned', hm', hrest, rfl⟩ := List.forall₂_cons_left_iff.mp hkept
    rcases hm' with rfl | ⟨_, text, callId, rfl, rfl⟩
    · exact .other hai htool (ih hrest)
    · exact absurd htool (by simp [BaseMessage.isTool])
  | turn hanswers _ ih =>
    obtain ⟨m', pruned', hm', hrest, rfl⟩ := List.forall₂_cons_left_iff.mp hkept
    obtain ⟨answers', rest', rfl, hanswers', hrest'⟩ := hanswers.kept hrest
    rcases hm' with rfl | ⟨_, text, callId, heq, -⟩
    · exact .turn hanswers' (ih hrest')
    · exact absurd heq (by simp)

/-- The calls of the last message, if the model has sent it. -/
def danglingToolCalls (messages : List BaseMessage) : List AiToolCall :=
  match messages.getLast? with
  | some (.ai _ calls) => calls
  | _ => []

/-- **A well-formed conversation ends in no call.** -/
theorem WellFormed.dangling {ms : List BaseMessage} (h : WellFormed ms) :
    danglingToolCalls ms = [] := by
  have hlater : ∀ front rest : List BaseMessage, rest ≠ [] →
      danglingToolCalls (front ++ rest) = danglingToolCalls rest := by
    intro front rest hne
    unfold danglingToolCalls
    rw [List.getLast?_append_of_ne_nil front hne]
  have hone : ∀ (front : List BaseMessage) (m : BaseMessage), m.isAi = false →
      danglingToolCalls (front ++ [m]) = [] := by
    intro front m hm
    unfold danglingToolCalls
    rw [List.getLast?_concat]
    cases m with
    | ai => exact absurd hm (by simp [BaseMessage.isAi])
    | _ => rfl
  induction h with
  | nil => rfl
  | @other m rest hai htool hrest ih =>
    by_cases hnil : rest = []
    · rw [hnil]
      exact hone [] m hai
    · exact (hlater [m] rest hnil).trans ih
  | @turn content calls answers rest hanswers hrest ih =>
    by_cases hnil : rest = []
    · rw [hnil, List.append_nil]
      rcases List.eq_nil_or_concat answers with rfl | ⟨before, last, rfl⟩
      · exact List.forall₂_nil_right_iff.mp hanswers
      · rw [List.concat_eq_append] at hanswers ⊢
        exact hone (.ai content calls :: before) last (hanswers.isAi last (by simp))
    · exact (hlater (.ai content calls :: answers) rest hnil).trans ih

end

end SelfAgent

end Runtime

end AgentReliability
