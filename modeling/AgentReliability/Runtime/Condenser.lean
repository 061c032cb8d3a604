import AgentReliability.Common.Machine
import AgentReliability.Common.PythonWords
import AgentReliability.Runtime.Conversation
import Mathlib.Tactic.Common
/-!
# The condenser

With `CONTEXT_MODE=condense` the tool results that `prune_messages` folds are
summarized by calls of a model of their own. The summaries are cached by the
id of the call, so that a result is summarized once and reads the same in
every later turn. The turns of one agent share the condenser: what the model
is asked in all of them is what one function of the ids makes of the messages.
-/

namespace AgentReliability

namespace Runtime

namespace SelfAgent

/-! ## `condenser.py` -/

/-- What the model call of the condenser comes to. -/
inductive CondenseAnswer where
  /-- The response, its usage, and whether its event could be emitted. -/
  | response (content : String) (promptTokens completionTokens : ℤ) (emitted : Bool)
  /-- An exception, in the call or reading the response. -/
  | failed
  /-- `UsageUnknown`, or an exception that is no `Exception`. -/
  | raised

/-- `Condenser`. -/
structure Condenser where
  cache : List (String × String) := []
  usedTokens : ℤ := 0
  newTokens : ℤ := 0

/-- The summary, below a line that says what it is. -/
def summaryText (chars : ℕ) (content : String) : String :=
  "[已压缩摘要，原文 " ++ toString chars ++ " 字符；需要原文请重新调用工具]\n" ++ PythonText.strip content

/-- `self.cache[key] = summary`. -/
def Condenser.store (c : Condenser) (key summary : String) : Condenser :=
  { c with cache := c.cache ++ [(key, summary)] }

/-- The tokens of a response are counted. -/
def Condenser.count (c : Condenser) (tokens : ℤ) : Condenser :=
  { c with usedTokens := c.usedTokens + tokens, newTokens := c.newTokens + tokens }

/-- `__call__`: the summary, if nothing is raised, with what the condenser is
afterwards and the responses that were paid for. An event that cannot be
emitted makes the call a failure, after its tokens were counted. -/
def Condenser.call (c : Condenser) (answer : CondenseAnswer) (key content : String) :
    Option String × Condenser × List (String × ℤ) :=
  match c.cache.lookup key with
  | some summary => (some summary, c, [])
  | none =>
    match answer with
    | .response text p q emitted =>
      let summary :=
        if emitted then summaryText content.length text else foldPlaceholder content.length
      (some summary, (c.count (p + q)).store key summary, [(key, p + q)])
    | .failed =>
      let summary := foldPlaceholder content.length
      (some summary, c.store key summary, [])
    | .raised => (none, c, [])

/-- `take_new_tokens`. -/
def Condenser.takeNewTokens (c : Condenser) : ℤ × Condenser :=
  (c.newTokens, { c with newTokens := 0 })

/-- The loop of `prune_messages` with this condenser, from an index on. The
answers are those to the messages, by their indexes. -/
def condenseFrom (answers : ℕ → CondenseAnswer) (folds : List ℕ) :
    ℕ → Condenser → List BaseMessage →
      Option (List BaseMessage) × Condenser × List (String × ℤ)
  | _, c, [] => (some [], c, [])
  | i, c, m :: rest =>
    match m with
    | .tool content callId =>
      if isFolded folds i (.tool content callId) then
        match c.call (answers i) callId (BaseMessage.tool content callId).textContent with
        | (none, c, paid) => (none, c, paid)
        | (some folded, c, paid) =>
          let (pruned, c, later) := condenseFrom answers folds (i + 1) c rest
          (pruned.map (.tool (.text folded) callId :: ·), c, paid ++ later)
      else
        let (pruned, c, paid) := condenseFrom answers folds (i + 1) c rest
        (pruned.map (.tool content callId :: ·), c, paid)
    | m =>
      let (pruned, c, paid) := condenseFrom answers folds (i + 1) c rest
      (pruned.map (m :: ·), c, paid)

/-! ## The turns of an agent -/

/-- What the agent node meets in a turn: the messages, the answers of the
condenser's model, and whether the model itself returns. -/
structure CondenseTurn where
  messages : List BaseMessage
  answers : ℕ → CondenseAnswer
  returns : Bool

/-- The messages of a turn, and what the model was asked. -/
structure Asked where
  messages : List BaseMessage
  prompt : List BaseMessage

/-- The condenser of an agent with what happened so far. -/
structure Condensing where
  condenser : Condenser := {}
  asked : List Asked := []
  /-- The responses of the condenser's model. -/
  paid : List (String × ℤ) := []
  /-- What `take_new_tokens` returned, in sum. -/
  taken : ℤ := 0
  raised : Bool := false

/-- The part of the agent node that has to do with the condenser. Whatever is
raised ends the run of the agent. -/
def condenseTurn (s : Condensing) (x : CondenseTurn) : Condensing :=
  if s.raised then s
  else
    match condenseFrom x.answers (toFold x.messages) 0 s.condenser x.messages with
    | (none, c, paid) => { s with condenser := c, paid := s.paid ++ paid, raised := true }
    | (some prompt, c, paid) =>
      let asked := s.asked ++ [{ messages := x.messages, prompt }]
      if x.returns then
        let (tokens, c) := c.takeNewTokens
        { s with condenser := c, paid := s.paid ++ paid, asked, taken := s.taken + tokens }
      else { s with condenser := c, paid := s.paid ++ paid, asked, raised := true }

def condensing : Machine Condensing CondenseTurn where
  init := {}
  step := condenseTurn

/-! ## What the cache keeps -/

/-- **What calls of the condenser do**: no summary is lost or replaced, what
is paid for was not cached before and is afterwards, once, and its tokens are
counted. -/
structure Grew (c c' : Condenser) (paid : List (String × ℤ)) : Prop where
  kept : ∀ key summary, c.cache.lookup key = some summary → c'.cache.lookup key = some summary
  used : c'.usedTokens = c.usedTokens + (paid.map Prod.snd).sum
  new : c'.newTokens = c.newTokens + (paid.map Prod.snd).sum
  fresh : ∀ key ∈ paid.map Prod.fst, c.cache.lookup key = none
  cached : ∀ key ∈ paid.map Prod.fst, c'.cache.lookup key ≠ none
  once : (paid.map Prod.fst).Nodup

theorem Grew.refl (c : Condenser) : Grew c c [] where
  kept _ _ h := h
  used := by simp
  new := by simp
  fresh _ h := absurd h List.not_mem_nil
  cached _ h := absurd h List.not_mem_nil
  once := List.nodup_nil

theorem Grew.keeps_cached {c c' : Condenser} {paid : List (String × ℤ)} (h : Grew c c' paid)
    {key : String} (hkey : c.cache.lookup key ≠ none) : c'.cache.lookup key ≠ none := by
  obtain ⟨summary, hsummary⟩ := Option.ne_none_iff_exists'.mp hkey
  rw [h.kept key summary hsummary]
  exact Option.some_ne_none summary

theorem Grew.trans {c₁ c₂ c₃ : Condenser} {paid later : List (String × ℤ)} (h : Grew c₁ c₂ paid)
    (h' : Grew c₂ c₃ later) : Grew c₁ c₃ (paid ++ later) where
  kept key summary hkey := h'.kept key summary (h.kept key summary hkey)
  used := by rw [h'.used, h.used, List.map_append, List.sum_append]; omega
  new := by rw [h'.new, h.new, List.map_append, List.sum_append]; omega
  fresh key hkey := by
    rw [List.map_append, List.mem_append] at hkey
    rcases hkey with hkey | hkey
    · exact h.fresh key hkey
    · by_contra hcached
      exact h.keeps_cached hcached (h'.fresh key hkey)
  cached key hkey := by
    rw [List.map_append, List.mem_append] at hkey
    rcases hkey with hkey | hkey
    · exact h'.keeps_cached (h.cached key hkey)
    · exact h'.cached key hkey
  once := by
    rw [List.map_append]
    refine h.once.append h'.once fun key hkey hlater => ?_
    exact h.cached key hkey (h'.fresh key hlater)

theorem lookup_append_of_none {cache : List (String × String)} {key summary : String}
    (h : cache.lookup key = none) : (cache ++ [(key, summary)]).lookup key = some summary := by
  rw [List.lookup_append, h, Option.none_or, List.lookup_cons_self]

theorem lookup_append_of_some {cache later : List (String × String)} {key summary : String}
    (h : cache.lookup key = some summary) : (cache ++ later).lookup key = some summary := by
  rw [List.lookup_append, h, Option.some_or]

/-- A summary is stored, and its tokens were counted if it was paid for. -/
theorem grew_store {c : Condenser} {key summary : String} (hkey : c.cache.lookup key = none)
    (tokens : ℤ) : Grew c ((c.count tokens).store key summary) [(key, tokens)] where
  kept _ _ h := lookup_append_of_some h
  used := by simp [Condenser.store, Condenser.count]
  new := by simp [Condenser.store, Condenser.count]
  fresh other h := by
    rw [List.map_singleton, List.mem_singleton] at h
    exact h ▸ hkey
  cached other h := by
    rw [List.map_singleton, List.mem_singleton] at h
    rw [h, Condenser.store, Condenser.count, lookup_append_of_none hkey]
    exact Option.some_ne_none summary
  once := List.nodup_singleton key

/-- A placeholder is stored, and nothing is paid. -/
theorem grew_placeholder (c : Condenser) (key summary : String) :
    Grew c (c.store key summary) [] where
  kept _ _ h := lookup_append_of_some h
  used := by simp [Condenser.store]
  new := by simp [Condenser.store]
  fresh _ h := absurd h List.not_mem_nil
  cached _ h := absurd h List.not_mem_nil
  once := List.nodup_nil

/-- **A call of the condenser**: its summary is the one that is cached from
then on. -/
theorem call_spec {c c' : Condenser} {answer : CondenseAnswer} {key content : String}
    {out : Option String} {paid : List (String × ℤ)}
    (h : c.call answer key content = (out, c', paid)) :
    Grew c c' paid ∧ ∀ summary, out = some summary → c'.cache.lookup key = some summary := by
  unfold Condenser.call at h
  split at h
  · next summary hcached =>
    obtain ⟨rfl, hrest⟩ := Prod.mk.inj h
    obtain ⟨rfl, rfl⟩ := Prod.mk.inj hrest
    exact ⟨.refl c, fun _ heq => Option.some.inj heq ▸ hcached⟩
  · next hnone =>
    split at h
    · obtain ⟨rfl, hrest⟩ := Prod.mk.inj h
      obtain ⟨rfl, rfl⟩ := Prod.mk.inj hrest
      exact ⟨grew_store hnone _, fun _ heq => Option.some.inj heq ▸ lookup_append_of_none hnone⟩
    · obtain ⟨rfl, hrest⟩ := Prod.mk.inj h
      obtain ⟨rfl, rfl⟩ := Prod.mk.inj hrest
      exact ⟨grew_placeholder c _ _,
        fun _ heq => Option.some.inj heq ▸ lookup_append_of_none hnone⟩
    · obtain ⟨rfl, hrest⟩ := Prod.mk.inj h
      obtain ⟨rfl, rfl⟩ := Prod.mk.inj hrest
      exact ⟨.refl c, fun _ heq => absurd heq (by simp)⟩

/-! ## One function of the ids -/

/-- The condenser of `prune_messages` that answers from a table. -/
def tableOf (table : String → Option String) : Condense := fun _ key _ => table key

/-- What a message is shown as. -/
def shownAs (table : String → Option String) (folds : List ℕ) (i : ℕ) (m : BaseMessage) :
    Option BaseMessage :=
  (pruneMessage (some (tableOf table)) folds i 0 m).map Prod.fst

variable {table table' : String → Option String} {folds folds' : List ℕ} {i calls : ℕ}
  {m : BaseMessage} {messages pruned : List BaseMessage}

/-- How many calls were made before is nothing to a table. -/
theorem shownAs_of_pruneMessage {shown : BaseMessage} {calls' : ℕ}
    (h : pruneMessage (some (tableOf table)) folds i calls m = some (shown, calls')) :
    shownAs table folds i m = some shown := by
  unfold pruneMessage at h
  unfold shownAs pruneMessage
  split at h
  · next content callId =>
    by_cases hfolded : isFolded folds i (.tool content callId)
    · rw [if_pos hfolded] at h
      obtain ⟨folded, hfold, heq⟩ := Option.map_eq_some_iff.mp h
      have hfold : table callId = some folded := hfold
      simp only [hfolded, if_true, foldedText, tableOf, hfold, Option.map_some]
      rw [(Prod.mk.inj heq).1]
    · rw [if_neg hfolded] at h
      simp only [hfolded, if_false, Option.map_some, Bool.false_eq_true]
      rw [(Prod.mk.inj (Option.some.inj h)).1]
  · rw [(Prod.mk.inj (Option.some.inj h)).1]
    rfl

theorem pruneFrom_getElem_table
    (h : pruneFrom (some (tableOf table)) folds i calls messages = some pruned) (j : ℕ) :
    pruned[j]? = messages[j]?.bind (shownAs table folds (i + j)) := by
  induction messages generalizing i calls pruned j with
  | nil =>
    obtain rfl := Option.some.inj h
    rfl
  | cons m rest ih =>
    obtain ⟨m', calls', rest', hm, hrest, rfl⟩ := pruneFrom_cons h
    cases j with
    | zero => exact (shownAs_of_pruneMessage hm).symm
    | succ j =>
      rw [List.getElem?_cons_succ, List.getElem?_cons_succ, ih hrest j, Nat.add_right_comm,
        Nat.add_assoc]

/-- A message is shown the same where it is folded in both. -/
theorem shownAs_congr (h : i ∈ folds ↔ i ∈ folds') :
    shownAs table folds i m = shownAs table folds' i m := by
  have hfolded : isFolded folds i m = isFolded folds' i m := by simp only [isFolded, h]
  unfold shownAs pruneMessage
  split
  · rw [hfolded]
  · rfl

/-- A table that has more answers the same. -/
theorem pruneFrom_mono
    (hmore : ∀ key summary, table key = some summary → table' key = some summary)
    (h : pruneFrom (some (tableOf table)) folds i calls messages = some pruned) :
    pruneFrom (some (tableOf table')) folds i calls messages = some pruned := by
  induction messages generalizing i calls pruned with
  | nil => exact h
  | cons m rest ih =>
    obtain ⟨m', calls', rest', hm, hrest, rfl⟩ := pruneFrom_cons h
    have hm' : pruneMessage (some (tableOf table')) folds i calls m = some (m', calls') := by
      unfold pruneMessage at hm ⊢
      split at hm
      · next content callId =>
        split at hm
        · next hfolded =>
          obtain ⟨folded, hfold, heq⟩ := Option.map_eq_some_iff.mp hm
          rw [if_pos hfolded]
          exact Option.map_eq_some_iff.mpr ⟨folded, hmore callId folded hfold, heq⟩
        · next hfolded => rwa [if_neg hfolded]
      · exact hm
    simp only [pruneFrom, hm', Option.bind_eq_bind, Option.bind_some, ih hrest]

/-- One message of the loop, and then the rest. -/
theorem pruneFrom_cons_of {condense : Option Condense} {m' : BaseMessage}
    {rest rest' : List BaseMessage}
    (hm : ∀ calls, ∃ calls', pruneMessage condense folds i calls m = some (m', calls'))
    (hrest : ∀ calls, pruneFrom condense folds (i + 1) calls rest = some rest') (calls : ℕ) :
    pruneFrom condense folds i calls (m :: rest) = some (m' :: rest') := by
  obtain ⟨calls', hcalls⟩ := hm calls
  simp only [pruneFrom, hcalls, hrest, Option.bind_eq_bind, Option.bind_some]

/-- **The loop with the condenser is the loop with the table it leaves.** -/
theorem condenseFrom_spec {answers : ℕ → CondenseAnswer} {c c' : Condenser}
    {out : Option (List BaseMessage)} {paid : List (String × ℤ)}
    (h : condenseFrom answers folds i c messages = (out, c', paid)) :
    Grew c c' paid ∧ ∀ pruned, out = some pruned → ∀ calls,
      pruneFrom (some (tableOf fun key => c'.cache.lookup key)) folds i calls messages =
        some pruned := by
  induction messages generalizing i c out c' paid with
  | nil =>
    obtain ⟨rfl, hrest⟩ := Prod.mk.inj h
    obtain ⟨rfl, rfl⟩ := Prod.mk.inj hrest
    exact ⟨.refl c, fun _ heq _ => heq⟩
  | cons m rest ih =>
    -- a message that is kept: the rest of the loop is all there is
    have hkeep : ∀ {rest'} {c'' : Condenser} {later : List (String × ℤ)},
        condenseFrom answers folds (i + 1) c rest = (rest', c'', later) →
        (∀ calls, pruneMessage (some (tableOf fun key => c''.cache.lookup key)) folds i calls m =
          some (m, calls)) →
        Grew c c'' later ∧ ∀ pruned, rest'.map (m :: ·) = some pruned → ∀ calls,
          pruneFrom (some (tableOf fun key => c''.cache.lookup key)) folds i calls (m :: rest) =
            some pruned := by
      intro rest' c'' later hrest hm
      obtain ⟨hgrew, hpruned⟩ := ih hrest
      refine ⟨hgrew, fun pruned heq => ?_⟩
      obtain ⟨prunedRest, rfl, rfl⟩ := Option.map_eq_some_iff.mp heq
      exact pruneFrom_cons_of (fun calls => ⟨calls, hm calls⟩) (hpruned _ rfl)
    unfold condenseFrom at h
    split at h
    · next content callId =>
      split at h
      · next hfolded =>
        split at h
        · next c₁ paid₁ hcall =>
          obtain ⟨rfl, hrest⟩ := Prod.mk.inj h
          obtain ⟨rfl, rfl⟩ := Prod.mk.inj hrest
          exact ⟨(call_spec hcall).1, fun _ heq => absurd heq (by simp)⟩
        · next folded c₁ paid₁ hcall =>
          obtain ⟨hgrew₁, hcached⟩ := call_spec hcall
          generalize hrest : condenseFrom answers folds (i + 1) c₁ rest = result at h
          obtain ⟨rest', c₂, later⟩ := result
          obtain ⟨rfl, hpair⟩ := Prod.mk.inj h
          obtain ⟨rfl, rfl⟩ := Prod.mk.inj hpair
          obtain ⟨hgrew, hpruned⟩ := ih hrest
          refine ⟨hgrew₁.trans hgrew, fun pruned heq => ?_⟩
          obtain ⟨prunedRest, rfl, rfl⟩ := Option.map_eq_some_iff.mp heq
          refine pruneFrom_cons_of (fun calls => ⟨calls + 1, ?_⟩) (hpruned _ rfl)
          have hsummary := hgrew.kept callId folded (hcached folded rfl)
          simp only [pruneMessage, hfolded, if_true, foldedText, tableOf, hsummary, Option.map_some]
      · next hfolded =>
        generalize hrest : condenseFrom answers folds (i + 1) c rest = result at h
        obtain ⟨rest', c₂, later⟩ := result
        obtain ⟨rfl, hpair⟩ := Prod.mk.inj h
        obtain ⟨rfl, rfl⟩ := Prod.mk.inj hpair
        exact hkeep hrest fun calls => by simp [pruneMessage, hfolded]
    · next hother =>
      generalize hrest : condenseFrom answers folds (i + 1) c rest = result at h
      obtain ⟨rest', c₂, later⟩ := result
      obtain ⟨rfl, hpair⟩ := Prod.mk.inj h
      obtain ⟨rfl, rfl⟩ := Prod.mk.inj hpair
      refine hkeep hrest fun calls => ?_
      unfold pruneMessage
      split
      · next content callId => exact absurd rfl (hother content callId)
      · rfl

/-- **What is folded once is folded in every later turn.** -/
theorem toFold_subset {later : List BaseMessage} (h : messages <+: later) :
    ∀ j ∈ toFold messages, j ∈ toFold later := by
  obtain ⟨more, rfl⟩ := h
  have hindexes : toolIndexes (messages ++ more) = toolIndexes messages ++
      ((more.zipIdx messages.length).filter (·.1.isTool)).map Prod.snd := by
    rw [toolIndexes, List.zipIdx_append, List.filter_append, List.map_append, Nat.zero_add]
    rfl
  intro j hj
  unfold toFold at hj ⊢
  rw [hindexes, List.length_append, List.take_append]
  refine List.mem_append_left _ ?_
  have hsub : (toolIndexes messages).take ((toolIndexes messages).length -
      pruneKeepLastToolResults) <+: (toolIndexes messages).take ((toolIndexes messages).length +
        (((more.zipIdx messages.length).filter (·.1.isTool)).map Prod.snd).length -
          pruneKeepLastToolResults) :=
    List.take_prefix_take_left (by omega)
  exact hsub.subset hj

/-! ## Over the turns -/

/-- **What holds after every turn.** -/
structure Steady (s : Condensing) : Prop where
  prompts : ∀ a ∈ s.asked,
    pruneMessages (some (tableOf fun key => s.condenser.cache.lookup key)) a.messages =
      some a.prompt
  used : s.condenser.usedTokens = (s.paid.map Prod.snd).sum
  settled : s.taken + s.condenser.newTokens = s.condenser.usedTokens
  idle : s.raised = false → s.condenser.newTokens = 0
  cached : ∀ key ∈ s.paid.map Prod.fst, s.condenser.cache.lookup key ≠ none
  once : (s.paid.map Prod.fst).Nodup

/-- What calls of the condenser leave of it, when nothing new is asked. -/
theorem Steady.grow {s : Condensing} (hs : Steady s) {c : Condenser} {paid : List (String × ℤ)}
    (h : Grew s.condenser c paid) :
    Steady { s with condenser := c, paid := s.paid ++ paid, raised := true } where
  prompts a ha := pruneFrom_mono h.kept (hs.prompts a ha)
  used := by
    show c.usedTokens = _
    rw [h.used, hs.used, List.map_append, List.sum_append]
  settled := by
    show s.taken + c.newTokens = c.usedTokens
    rw [h.new, h.used, ← hs.settled, Int.add_assoc]
  idle h := absurd h (by simp)
  cached key hkey := by
    rw [List.map_append, List.mem_append] at hkey
    rcases hkey with hkey | hkey
    · exact h.keeps_cached (hs.cached key hkey)
    · exact h.cached key hkey
  once := by
    rw [List.map_append]
    exact hs.once.append h.once fun key hkey hlater => hs.cached key hkey (h.fresh key hlater)

/-- A turn keeps it. -/
theorem Steady.turn {s : Condensing} (hs : Steady s) (x : CondenseTurn) :
    Steady (condenseTurn s x) := by
  unfold condenseTurn
  split
  · exact hs
  · split
    · next c paid hcondense => exact hs.grow (condenseFrom_spec hcondense).1
    · next prompt c paid hcondense =>
      obtain ⟨hgrew, hpruned⟩ := condenseFrom_spec hcondense
      have hgrown := hs.grow hgrew
      have hprompts : ∀ a ∈ s.asked ++ [⟨x.messages, prompt⟩],
          pruneMessages (some (tableOf fun key => c.cache.lookup key)) a.messages =
            some a.prompt := by
        intro a ha
        rcases List.mem_append.mp ha with ha | ha
        · exact hgrown.prompts a ha
        · rw [List.mem_singleton.mp ha]
          exact hpruned prompt rfl 0
      simp only
      split
      · refine ⟨hprompts, hgrown.used, ?_, fun _ => rfl, hgrown.cached, hgrown.once⟩
        show s.taken + c.newTokens + 0 = c.usedTokens
        rw [Int.add_zero]
        exact hgrown.settled
      · exact ⟨hprompts, hgrown.used, hgrown.settled, fun h => absurd h (by simp), hgrown.cached,
          hgrown.once⟩

theorem steady_of_run (turns : List CondenseTurn) : Steady (condensing.run turns) := by
  refine condensing.runFrom_stable (fun s x hs => hs.turn x) ⟨?_, rfl, rfl, fun _ => rfl, ?_, ?_⟩ turns
  · exact fun _ h => absurd h List.not_mem_nil
  · exact fun _ h => absurd h List.not_mem_nil
  · exact List.nodup_nil

/-- **The summaries of a run are those of one function of the ids.** Over the
turns of an agent there is one table that all prompts are pruned with. So a
message that is shown in two prompts reads the same in both, unless it is
folded in one of them only. No result is paid for twice, and the tokens of
what was paid for are those `take_new_tokens` has handed over, but for a turn
that raised. -/
theorem condenser_steady (turns : List CondenseTurn) :
    let s := condensing.run turns
    (∃ table : String → Option String, ∀ a ∈ s.asked,
      pruneMessages (some (tableOf table)) a.messages = some a.prompt) ∧
    (∀ a ∈ s.asked, ∀ b ∈ s.asked, a.messages <+: b.messages → ∀ j < a.messages.length,
      (j ∈ toFold b.messages → j ∈ toFold a.messages) → b.prompt[j]? = a.prompt[j]?) ∧
    (s.paid.map Prod.fst).Nodup ∧
    s.condenser.usedTokens = (s.paid.map Prod.snd).sum ∧
    (s.raised = false → s.taken = (s.paid.map Prod.snd).sum) := by
  intro s
  have hs : Steady s := steady_of_run turns
  refine ⟨⟨_, hs.prompts⟩, ?_, hs.once, hs.used, ?_⟩
  · intro a ha b hb hprefix j hj hfolds
    have hfold : j ∈ toFold a.messages ↔ j ∈ toFold b.messages :=
      ⟨toFold_subset hprefix j, hfolds⟩
    have hmessage : b.messages[j]? = a.messages[j]? := by
      obtain ⟨more, hmore⟩ := hprefix
      rw [← hmore, List.getElem?_append_left hj]
    rw [pruneFrom_getElem_table (hs.prompts a ha) j, pruneFrom_getElem_table (hs.prompts b hb) j,
      hmessage, Nat.zero_add]
    exact congrArg a.messages[j]?.bind (funext fun m => (shownAs_congr hfold).symm)
  · intro hraised
    have hsettled := hs.settled
    rw [hs.idle hraised, Int.add_zero] at hsettled
    rw [hsettled, hs.used]

end SelfAgent

end Runtime

end AgentReliability
