import AgentReliability.Runtime.Recovery
/-!
# Which calls a replay answers from the cache

A call is kept under the id it was made with. `apply_patch` is given the
model's, which the replay uses again; every other tool takes a new id of
the attempt, which no later attempt asks for. So of the calls a stopped
tools node has completed, the replay finds the patches and runs the
commands again.
-/

namespace AgentReliability

namespace Runtime

variable {F : Type} {g : Git F} {base : F}

namespace Toolset

/-! ## One call -/

/-- The ids the toolset will give are not completed yet. -/
def NewIds (t : Toolset F) : Prop :=
  ∀ sequence counter, .generated t.attemptNo sequence counter ∈ t.keys → counter ≤ t.counter

/-- Events of the agent between two calls. -/
def skip (t : Toolset F) (n : ℕ) : Toolset F := { t with sequence := t.sequence + n }

theorem executions_emit (t : Toolset F) (n : ℕ) (e : ToolEvent) (id : ToolCallId) :
    (t.emit n e).executions id =
      t.executions id + if e.call = id ∧ e.cached = false then 1 else 0 := by
  unfold executions emit
  rw [List.countP_append, List.countP_singleton]
  cases e.cached <;> simp

/-- **What one call does, seen from its id**: it is answered from the cache
if it is a patch that was completed, and run once otherwise. -/
structure Effect (t t' : Toolset F) (c : ToolCall) (content : ToolContent) : Prop where
  cached : (∃ tool digest, content = .cached tool digest) ↔ c.request.isPatch ∧ c.id ∈ t.keys
  event : c.request.isPatch → c.id ∈ t.keys → ∃ e ∈ t'.events, e.call = c.id ∧ e.cached
  executions : t'.executions c.id = t.executions c.id +
    if c.request.runs ∧ ¬ (c.request.isPatch ∧ c.id ∈ t.keys) then 1 else 0
  keys : c.id ∈ t'.keys ↔ c.id ∈ t.keys ∨ (c.request.isPatch ∧ content.isError = false)

theorem ne_of_isIssued {id : ToolCallId} (h : id.isIssued) : id ≠ .issued "" := by
  rintro rfl
  exact absurd h (by simp [ToolCallId.isIssued])

namespace Answered

variable {t t' : Toolset F} {c : ToolCall} {content : ToolContent}

theorem newIds (h : Answered g t c t' content) (hid : c.id.isIssued) (hnew : t.NewIds) :
    t'.NewIds := by
  intro sequence counter hkey
  rw [h.attemptNo] at hkey
  rcases h.of_mem_keys hkey with hold | ⟨hcall, -, -, hcounter, -⟩
  · exact Nat.le_trans (hnew _ _ hold) h.counter_le
  · obtain ⟨text, htext, hissued⟩ := ToolCallId.isIssued_iff.mp hid
    have hne : c.id ≠ .issued "" := by
      rw [hissued]
      exact fun heq => htext (ToolCallId.issued.inj heq)
    rcases callId_cases t hne with ⟨hcid, -⟩ | ⟨hcid, -⟩
    · rw [hcid, hissued] at hcall
      exact absurd hcall (by simp)
    · rw [hcid] at hcall hcounter
      obtain ⟨-, -, rfl⟩ := ToolCallId.generated.inj hcall
      exact Nat.le_of_eq hcounter.symm

theorem events_subset (h : Answered g t c t' content) {e : ToolEvent} (he : e ∈ t.events) :
    e ∈ t'.events := by
  cases h with
  | invalid => exact he
  | _ =>
    change e ∈ _ ++ [_]
    rw [callId_events]
    exact List.mem_append_left _ he

/-- Another call's id. -/
theorem others (h : Answered g t c t' content) (hc : c.id.isIssued) {id : ToolCallId}
    (hissued : id.isIssued) (hne : id ≠ c.id) :
    (id ∈ t'.keys ↔ id ∈ t.keys) ∧ t'.executions id = t.executions id := by
  have hid := ne_of_isIssued hc
  refine ⟨⟨fun hkey => ?_, h.mem_keys⟩, ?_⟩
  · rcases h.of_mem_keys hkey with hold | ⟨hcall, -⟩
    · exact hold
    · rcases callId_cases t hid with ⟨hcid, -⟩ | ⟨hcid, -⟩
      · rw [hcid] at hcall
        exact absurd hcall hne
      · rw [hcid] at hcall
        rw [hcall] at hissued
        exact absurd hissued (by simp [nextId, ToolCallId.isIssued])
  · have hother : ∀ (u : Toolset F) (n : ℕ) (e : ToolEvent), u.events = t.events →
        e.call = c.id → (u.emit n e).executions id = t.executions id := by
      intro u n e hevents he
      have hnot : ¬ (e.call = id ∧ e.cached = false) := fun hboth => hne (hboth.1.symm.trans he)
      rw [executions_emit, if_neg hnot, Nat.add_zero]
      unfold executions
      rw [hevents]
    cases h with
    | invalid => rfl
    | _ => exact hother _ _ _ callId_events rfl

theorem effect (h : Answered g t c t' content) (hissued : c.id.isIssued) (hnew : t.NewIds) :
    Effect t t' c content := by
  have hid := ne_of_isIssued hissued
  have hown : ∀ (u : Toolset F) (n : ℕ) (e : ToolEvent), u.events = t.events → e.call = c.id →
      (u.emit n e).executions c.id = t.executions c.id + if e.cached = false then 1 else 0 := by
    intro u n e hevents he
    rw [executions_emit]
    simp only [he, true_and]
    unfold executions
    rw [hevents]
  rcases callId_cases t hid with ⟨hcid, patch, hpatch⟩ | ⟨hcid, hnot⟩
  · have hispatch : c.request.isPatch := by rw [hpatch]; rfl
    cases h with
    | invalid hc => exact absurd (hpatch.symm.trans hc) (by simp)
    | cached hkey hruns =>
      have hkey' := hkey
      rw [hcid] at hkey'
      refine ⟨⟨fun _ => ⟨hispatch, hkey'⟩, fun _ => ⟨_, _, rfl⟩⟩, fun _ _ => ?_, ?_, ?_⟩
      · exact ⟨_, List.mem_append_right _ (List.mem_singleton_self _), rfl, rfl⟩
      · rw [hown _ _ _ callId_events rfl, if_neg (by simp), if_neg fun hboth =>
          hboth.2 ⟨hispatch, hkey'⟩]
      · change c.id ∈ (t.callId c).1.completed.map Prod.fst ↔ _
        rw [callId_completed]
        exact ⟨.inl, fun _ => hkey'⟩
    | @failed _ emitted _ hkey hruns =>
      have hkey' := hkey
      rw [hcid] at hkey'
      refine ⟨⟨fun hcached => absurd hcached (by simp), fun hboth => absurd hboth.2 hkey'⟩,
        fun _ hmem => absurd hmem hkey', ?_, ?_⟩
      · refine (hown _ emitted _ callId_events rfl).trans ?_
        rw [if_pos rfl, if_pos ⟨hruns, fun hboth => hkey' hboth.2⟩]
      · exact ⟨.inl, fun hor => hor.resolve_right (by simp [ToolContent.isError])⟩
    | @ran _ _ _ emitted _ _ hkey hruns himpl =>
      obtain ⟨-, herror, hnotcached, -⟩ := impl_ok himpl
      have hkey' := hkey
      rw [hcid] at hkey'
      refine ⟨⟨fun ⟨tool, digest, hcached⟩ => absurd hcached (hnotcached tool digest),
        fun hboth => absurd hboth.2 hkey'⟩, fun _ hmem => absurd hmem hkey', ?_, ?_⟩
      · refine (hown _ emitted _ callId_events rfl).trans ?_
        rw [if_pos rfl, if_pos ⟨hruns, fun hboth => hkey' hboth.2⟩]
      · change c.id ∈ (t.completed ++ [_]).map Prod.fst ↔ _
        rw [hcid]
        simp [keys, hispatch, herror]
  · have hispatch : c.request.isPatch = false := by
      unfold ToolRequest.isPatch
      split
      · rename_i patch hpatch
        exact absurd hpatch (hnot patch)
      · rfl
    have hnokey : (t.callId c).2 ∉ t.keys := by
      rw [hcid]
      intro hmem
      have := hnew _ _ hmem
      omega
    cases h with
    | invalid hc =>
      refine ⟨by simp [hispatch], by simp [hispatch], ?_, by simp [hispatch]⟩
      rw [if_neg (by simp [hc, ToolRequest.runs]), Nat.add_zero]
    | cached hkey => exact absurd hkey hnokey
    | @failed _ emitted _ hkey hruns =>
      refine ⟨by simp [hispatch], by simp [hispatch], ?_, ?_⟩
      · refine (hown _ emitted _ callId_events rfl).trans ?_
        rw [if_pos rfl, if_pos ⟨hruns, by simp [hispatch]⟩]
      · change c.id ∈ t.completed.map Prod.fst ↔ _
        simp [keys, hispatch]
    | @ran _ _ _ emitted _ _ hkey hruns himpl =>
      obtain ⟨-, herror, hnotcached, -⟩ := impl_ok himpl
      refine ⟨⟨fun ⟨tool, digest, hcached⟩ => absurd hcached (hnotcached tool digest), fun hboth =>
        absurd hboth.1 (by simp [hispatch])⟩, by simp [hispatch], ?_, ?_⟩
      · refine (hown _ emitted _ callId_events rfl).trans ?_
        rw [if_pos rfl, if_pos ⟨hruns, by simp [hispatch]⟩]
      · change c.id ∈ (t.completed ++ [_]).map Prod.fst ↔ _
        have hne : c.id ≠ (t.callId c).2 := by
          intro heq
          rw [heq, hcid] at hissued
          exact absurd hissued (by simp [nextId, ToolCallId.isIssued])
        simp [keys, hispatch, hne]

end Answered

/-! ## The calls of one message -/

/-- The calls are made one after another, with any number of other events
between them. -/
inductive AnsweredAll (g : Git F) : Toolset F → List ToolCall → Toolset F → List Message → Prop
  | nil (t : Toolset F) : AnsweredAll g t [] t []
  | cons {t t₁ t' : Toolset F} {c : ToolCall} {calls : List ToolCall} {content : ToolContent}
      {messages : List Message} (n : ℕ) (hc : Answered g t c t₁ content)
      (hcalls : AnsweredAll g (t₁.skip n) calls t' messages) :
      AnsweredAll g t (c :: calls) t' (.tool c.id content :: messages)

/-- What the calls do to another id, which is none of theirs. -/
def SameFor (id : ToolCallId) (t t' : Toolset F) : Prop :=
  (id ∈ t'.keys ↔ id ∈ t.keys) ∧ t'.executions id = t.executions id

theorem Effect.extend {t t₁ t₂ t' : Toolset F} {c : ToolCall} {content : ToolContent}
    (h : Effect t₁ t₂ c content) (hbefore : SameFor c.id t t₁) (hafter : SameFor c.id t₂ t')
    (hevents : ∀ e ∈ t₂.events, e ∈ t'.events) : Effect t t' c content where
  cached := by rw [h.cached, hbefore.1]
  event := by
    intro hpatch hkey
    obtain ⟨e, he, hcall, hcached⟩ := h.event hpatch (hbefore.1.mpr hkey)
    exact ⟨e, hevents e he, hcall, hcached⟩
  executions := by simp only [hafter.2, h.executions, hbefore.1, hbefore.2]
  keys := by rw [hafter.1, h.keys, hbefore.1]

namespace AnsweredAll

variable {t t' : Toolset F} {calls : List ToolCall} {messages : List Message}

theorem ids (h : AnsweredAll g t calls t' messages) {id : ToolCallId} {content : ToolContent}
    (hm : .tool id content ∈ messages) : id ∈ calls.map (·.id) := by
  induction h with
  | nil => exact absurd hm (by simp)
  | cons n hc hcalls ih =>
    rcases List.mem_cons.mp hm with hm | hm
    · obtain ⟨rfl, -⟩ := Message.tool.inj hm
      exact List.mem_cons_self
    · exact List.mem_cons_of_mem _ (ih hm)

theorem events_subset (h : AnsweredAll g t calls t' messages) :
    ∀ e ∈ t.events, e ∈ t'.events := by
  induction h with
  | nil => exact fun e he => he
  | cons n hc hcalls ih => exact fun e he => ih e (hc.events_subset he)

theorem newIds (h : AnsweredAll g t calls t' messages) (hissued : ∀ c ∈ calls, c.id.isIssued)
    (hnew : t.NewIds) : t'.NewIds := by
  induction h with
  | nil => exact hnew
  | cons n hc hcalls ih =>
    have ⟨hhead, htail⟩ := List.forall_mem_cons.mp hissued
    exact ih htail (hc.newIds hhead hnew)

theorem sameFor (h : AnsweredAll g t calls t' messages) (hissued : ∀ c ∈ calls, c.id.isIssued)
    {id : ToolCallId} (hid : id.isIssued) (hnot : id ∉ calls.map (·.id)) : SameFor id t t' := by
  induction h with
  | nil => exact ⟨Iff.rfl, rfl⟩
  | cons n hc hcalls ih =>
    have ⟨hhead, htail⟩ := List.forall_mem_cons.mp hissued
    obtain ⟨hne, hrest⟩ := not_or.mp fun hor => hnot (List.mem_cons.mpr hor)
    obtain ⟨hkeys, hexecutions⟩ := ih htail hrest
    obtain ⟨hkeys₁, hexecutions₁⟩ := hc.others hhead hid hne
    exact ⟨hkeys.trans hkeys₁, hexecutions.trans hexecutions₁⟩

/-- **Each of the calls has one answer**, and the effect it has alone. -/
theorem effect (h : AnsweredAll g t calls t' messages) (hissued : ∀ c ∈ calls, c.id.isIssued)
    (hnodup : (calls.map (·.id)).Nodup) (hnew : t.NewIds) : ∀ c ∈ calls, ∃ content,
      (∀ content', .tool c.id content' ∈ messages ↔ content' = content) ∧
        Effect t t' c content := by
  induction h with
  | nil => exact fun c hc => absurd hc (by simp)
  | @cons t t₁ t' d calls content messages n hd hcalls ih =>
    obtain ⟨hhead, htail⟩ := List.forall_mem_cons.mp hissued
    obtain ⟨hfresh, hrest⟩ := List.nodup_cons.mp hnodup
    intro c hc
    rcases List.mem_cons.mp hc with rfl | hc
    · refine ⟨content, fun content' => ⟨fun hm => ?_, ?_⟩, ?_⟩
      · rcases List.mem_cons.mp hm with hm | hm
        · exact (Message.tool.inj hm).2
        · exact absurd (hcalls.ids hm) hfresh
      · rintro rfl
        exact List.mem_cons_self
      · exact (hd.effect hhead hnew).extend ⟨Iff.rfl, rfl⟩ (hcalls.sameFor htail hhead hfresh)
          hcalls.events_subset
    · obtain ⟨content', hanswer, heffect⟩ := ih htail hrest (hd.newIds hhead hnew) c hc
      have hne : c.id ≠ d.id := by
        intro heq
        exact hfresh (List.mem_map.mpr ⟨c, hc, heq⟩)
      refine ⟨content', fun answer => ?_, ?_⟩
      · rw [← hanswer, List.mem_cons]
        exact ⟨fun hm => hm.resolve_left fun heq => hne (Message.tool.inj heq).1, .inr⟩
      · exact heffect.extend (hd.others hhead (htail c hc) hne) ⟨Iff.rfl, rfl⟩ fun _ he => he

end AnsweredAll

end Toolset

/-! ## The two attempts -/

section

variable {s : AgentState F} {live : Live F}

/-- The tools node makes its first calls, each with its checkpoint. -/
def madeCalls (xs : List (ToolOutcome F)) : List (AgentEvent F) :=
  xs.flatMap fun x => [.call x, .checkpoint]

theorem run_madeCalls (g : Git F) (base : F) {xs : List (ToolOutcome F)} {calls : List ToolCall}
    {outputs : List Message} (hlive : s.live = some live) (hphase : live.phase = .tools calls outputs false)
    (hlength : xs.length ≤ calls.length) (hxs : ∀ x ∈ xs, x.isCrash = false) :
    ∃ s' t' messages, (agentMachine g base).runFrom s (madeCalls xs) = s' ∧
      Toolset.AnsweredAll g live.toolset (calls.take xs.length) t' messages ∧
      s'.thread = s.thread ∧ s'.attempts = s.attempts ∧
      s'.live = some { live with
        toolset := t', phase := .tools (calls.drop xs.length) (outputs ++ messages) false } ∧
      (xs ≠ [] → s'.checkpoint = some ⟨t'.workspace, t'.completed⟩) := by
  induction xs generalizing s live calls outputs with
  | nil =>
    refine ⟨s, live.toolset, [], rfl, .nil _, rfl, rfl, ?_, fun h => absurd rfl h⟩
    rw [hlive, List.append_nil, List.length_nil, List.drop_zero, ← hphase]
  | cons x xs ih =>
    obtain ⟨hx, hrest⟩ := List.forall_mem_cons.mp hxs
    cases calls with
    | nil => exact absurd hlength (by simp)
    | cons c calls =>
      obtain ⟨t₁, content, hdispatch⟩ := Toolset.exists_answered (g := g) (c := c) live.toolset hx
      have hlength' : xs.length ≤ calls.length := Nat.le_of_succ_le_succ hlength
      -- The state after the call and its checkpoint.
      have hstep : (agentMachine g base).runFrom s [.call x, .checkpoint] = { s with
          checkpoint := some ⟨t₁.workspace, t₁.completed⟩
          unsaved := []
          live := some { live with
            toolset := t₁.skip 1
            phase := .tools calls (outputs ++ [.tool c.id content]) false } } := by
        simp [agentMachine, agentStep, hlive, hphase, toolCall, hdispatch, onCheckpoint,
          Toolset.skip]
      have hlive₁ : ((agentMachine g base).runFrom s [.call x, .checkpoint]).live = some { live with
          toolset := t₁.skip 1
          phase := .tools calls (outputs ++ [.tool c.id content]) false } := by
        rw [hstep]
      obtain ⟨s', t', messages, hrun, hanswered, hthread, hattempts, hlive', hcheckpoint⟩ :=
        ih hlive₁ rfl hlength' hrest
      refine ⟨s', t', .tool c.id content :: messages, ?_,
        .cons 1 (Toolset.answered_of_dispatch hdispatch) hanswered, ?_, ?_, ?_, fun _ => ?_⟩
      · rw [← hrun, ← Machine.runFrom_append]
        rfl
      · rw [hthread, hstep]
      · rw [hattempts, hstep]
      · rw [hlive', List.append_assoc]
        rfl
      · by_cases hnil : xs = []
        · subst hnil
          cases hanswered
          rw [← hrun]
          change ((agentMachine g base).runFrom s [.call x, .checkpoint]).checkpoint = _
          rw [hstep]
          rfl
        · exact hcheckpoint hnil

/-- The next attempt answers the calls that are left dangling. -/
theorem run_replay (g : Git F) (base : F) {ys : List (ToolOutcome F)} {calls : List ToolCall}
    {inject : List Message} (hlive : s.live = some live) (hphase : live.phase = .replaying calls inject)
    (hlength : ys.length = calls.length) (hys : ∀ y ∈ ys, y.isCrash = false) :
    ∃ s' live' messages, (agentMachine g base).runFrom s (ys.map .replay) = s' ∧
      Toolset.AnsweredAll g live.toolset calls live'.toolset messages ∧
      s'.live = some live' ∧ live'.phase = .replaying [] (inject ++ messages) := by
  induction ys generalizing s live calls inject with
  | nil =>
    obtain rfl := List.eq_nil_of_length_eq_zero hlength.symm
    exact ⟨s, live, [], rfl, .nil _, hlive, by rw [hphase, List.append_nil]⟩
  | cons y ys ih =>
    obtain ⟨hy, hrest⟩ := List.forall_mem_cons.mp hys
    cases calls with
    | nil => exact absurd hlength (by simp)
    | cons c calls =>
      obtain ⟨t₁, content, hdispatch⟩ := Toolset.exists_answered (g := g) (c := c) live.toolset hy
      have hstep : agentStep g base s (.replay y) = { s with
          live := some {
            toolset := t₁
            phase := .replaying calls (inject ++ [.tool c.id content])
            replayed := live.replayed ++
              lackedPatch g (s.restored base) live.toolset c content } } := by
        simp [agentStep, hlive, hphase, replayCall, hdispatch]
      obtain ⟨s', live', messages, hrun, hanswered, hlive', hphase'⟩ :=
        ih (s := agentStep g base s (.replay y)) (by rw [hstep]) rfl
          (Nat.succ.inj hlength) hrest
      refine ⟨s', live', .tool c.id content :: messages, hrun,
        .cons 0 (Toolset.answered_of_dispatch hdispatch) hanswered, hlive', ?_⟩
      rw [hphase', List.append_assoc]
      rfl

theorem AgentInv.newIds (h : AgentInv careful g base s) (hlive : s.live = some live) :
    live.toolset.NewIds := by
  intro sequence counter hkey
  have hinv := h.live live hlive
  rcases hinv.known _ hkey with hissued | ⟨no, _, _, heq, hno⟩
  · obtain ⟨c, hc, hid⟩ := List.mem_map.mp hissued
    obtain ⟨text, -, htext⟩ := h.issued c hc
    exact absurd (htext.symm.trans hid) (by simp)
  · obtain ⟨rfl, rfl, rfl⟩ := ToolCallId.generated.inj heq
    have hattempt := hinv.attemptNo
    rcases hno with hlt | ⟨-, hle⟩
    · omega
    · exact hle

/-- The calls a tools node starts with are those of the message that is left
dangling, with ids of their own that are not completed. -/
theorem AgentInv.starting (h : AgentInv careful g base s) (hlive : s.live = some live)
    {calls : List ToolCall} (hphase : live.phase = .tools calls [] false) :
    danglingCalls s.thread.messages = calls ∧ (∀ c ∈ calls, c.id.isIssued) ∧
      (calls.map (·.id)).Nodup ∧ ∀ c ∈ calls, c.id ∉ live.toolset.keys := by
  have hinv := (h.live live hlive).phase
  rw [hphase] at hinv
  obtain ⟨⟨made, hmade, hlength⟩, hcalls, hnodup, -⟩ := hinv
  obtain rfl := List.eq_nil_of_length_eq_zero hlength
  refine ⟨hmade, fun c hc => ?_, hnodup, fun c hc => (hcalls c hc).2⟩
  obtain ⟨text, hne, hid⟩ := h.issued c (hcalls c hc).1
  exact ToolCallId.isIssued_iff.mpr ⟨text, hne, hid⟩

end

/-! ## The result -/

/-- The call completed successfully: its answer is not an error. -/
def Completed (outputs : List Message) (c : ToolCall) : Prop :=
  ∃ content, .tool c.id content ∈ outputs ∧ content.isError = false

/-- The one answer the replay has for the call is the cached one. -/
def FromCache (inject : List Message) (c : ToolCall) : Prop :=
  ∃ tool digest, ∀ content, .tool c.id content ∈ inject ↔ content = .cached tool digest

/-- **No completed side effect is replayed**, and what comes after the first
`k` calls is run once. `outputs` are the answers the stopped tools node had,
and `t` is the toolset of the attempt that has replayed the message. -/
structure NotReplayed (calls : List ToolCall) (k : ℕ) (outputs inject : List Message)
    (t : Toolset F) : Prop where
  cached : ∀ c ∈ calls.take k, c.request.sideEffecting → Completed outputs c →
    FromCache inject c ∧ (∃ e ∈ t.events, e.call = c.id ∧ e.cached) ∧ t.executions c.id = 0
  once : ∀ c ∈ calls.drop k, c.request.runs → t.executions c.id = 1

/-- What the two attempts do: the tools node makes its first calls and the
worker stops, possibly during the next; the next attempt replays the
message. -/
def stoppedRun (xs : List (ToolOutcome F)) (begun : Option (ToolOutcome F))
    (ys : List (ToolOutcome F)) : List (AgentEvent F) :=
  madeCalls xs ++ begun.toList.map .call ++ [.stop, .start] ++ ys.map .replay

/-- What one pass over the calls completes, and what a second that knows of
it does. -/
theorem notReplayed_iff {t t₁ t₂ u : Toolset F} {calls : List ToolCall} {k : ℕ}
    {outputs inject : List Message} (hissued : ∀ c ∈ calls, c.id.isIssued)
    (hnodup : (calls.map (·.id)).Nodup) (hkeys : ∀ c ∈ calls, c.id ∉ t.keys) (hnew : t.NewIds)
    (hfirst : Toolset.AnsweredAll g t (calls.take k) t₁ outputs) (hu : u.keys = t₁.keys)
    (hevents : u.events = []) (hunew : u.NewIds)
    (hsecond : Toolset.AnsweredAll g u calls t₂ inject) :
    NotReplayed calls k outputs inject t₂ ↔
      ∀ c ∈ calls.take k, Completed outputs c → c.request.isCommand = false := by
  have hnone : ∀ id, u.executions id = 0 := by
    intro id
    unfold Toolset.executions
    rw [hevents, List.countP_nil]
  have hmade := hfirst.effect (fun c hc => hissued c (List.mem_of_mem_take hc))
    (hnodup.sublist ((List.take_sublist k calls).map _)) hnew
  have hagain := hsecond.effect hissued hnodup hunew
  constructor
  · intro h c hc hcompleted
    by_contra hcommand
    have hcommand : c.request.isCommand := by simpa using hcommand
    have hside : c.request.sideEffecting ∧ ¬ c.request.isPatch := by
      cases hrequest : c.request <;> simp_all [ToolRequest.isCommand, ToolRequest.sideEffecting,
        ToolRequest.isPatch]
    obtain ⟨⟨tool, digest, hcache⟩, -, -⟩ := h.cached c hc hside.1 hcompleted
    obtain ⟨content, hanswer, heffect⟩ := hagain c (List.mem_of_mem_take hc)
    have heq := (hanswer _).mp ((hcache _).mpr rfl)
    exact hside.2 (heffect.cached.mp ⟨tool, digest, heq.symm⟩).1
  · intro h
    constructor
    · rintro c hc hside ⟨content₁, hm₁, herror⟩
      obtain ⟨content, hanswer, heffect⟩ := hagain c (List.mem_of_mem_take hc)
      obtain ⟨content', hanswer', heffect'⟩ := hmade c hc
      obtain rfl := (hanswer' _).mp hm₁
      have hcommand := h c hc ⟨content₁, hm₁, herror⟩
      have hpatch : c.request.isPatch := by
        cases hrequest : c.request <;> simp_all [ToolRequest.isCommand, ToolRequest.sideEffecting,
          ToolRequest.isPatch]
      have hkey : c.id ∈ u.keys := by
        rw [hu]
        exact heffect'.keys.mpr (.inr ⟨hpatch, herror⟩)
      refine ⟨?_, heffect.event hpatch hkey, ?_⟩
      · obtain ⟨tool, digest, rfl⟩ := heffect.cached.mpr ⟨hpatch, hkey⟩
        exact ⟨tool, digest, hanswer⟩
      · rw [heffect.executions, hnone, if_neg fun hboth => hboth.2 ⟨hpatch, hkey⟩]
    · intro c hc hruns
      have hmem := List.mem_of_mem_drop hc
      obtain ⟨content, -, heffect⟩ := hagain c hmem
      have hnot : c.id ∉ (calls.take k).map (·.id) := by
        intro htake
        rw [← List.take_append_drop k calls, List.map_append] at hnodup
        exact (List.nodup_append.mp hnodup).2.2 _ htake _ (List.mem_map_of_mem hc) rfl
      have hkey : c.id ∉ u.keys := by
        rw [hu, (hfirst.sameFor (fun c hc => hissued c (List.mem_of_mem_take hc))
          (hissued c hmem) hnot).1]
        exact hkeys c hmem
      rw [heffect.executions, hnone, if_pos ⟨hruns, fun hboth => hkey hboth.2⟩]

/-- The next attempt starts with what the last checkpoint has as completed,
under ids it will not give itself. -/
theorem AgentInv.restart {s : AgentState F} (h : AgentInv careful g base s) {w : Workspace F}
    {completed : List (ToolCallId × String)} (hcheckpoint : s.checkpoint = some ⟨w, completed⟩)
    (hmessages : s.thread.messages ≠ []) :
    ∃ live, ((agentMachine g base).runFrom s [.stop, .start]).live = some live ∧
      live.toolset.completed = completed ∧ live.toolset.events = [] ∧ live.toolset.NewIds ∧
      live.phase = .replaying (danglingCalls s.thread.messages) [] := by
  have hstop : agentStep g base s .stop = { s with live := none } := by
    unfold agentStep
    split
    · rename_i hlive
      rw [← hlive]
    · rfl
  have hstart : ((agentMachine g base).runFrom s [.stop, .start]).live = some {
      toolset := { workspace := w, completed, attemptNo := s.attempts + 1 }
      phase := .replaying (danglingCalls s.thread.messages) [] } := by
    simp only [Machine.runFrom_cons, Machine.runFrom_nil, agentMachine, hstop]
    simp [agentStep, startAttempt, AgentState.restored, hcheckpoint, hmessages]
  refine ⟨_, hstart, rfl, rfl, ?_, rfl⟩
  intro sequence counter hkey
  have hsaved : .generated (s.attempts + 1) sequence counter ∈ s.savedKeys := by
    unfold AgentState.savedKeys
    rw [hcheckpoint]
    exact hkey
  rcases h.known _ hsaved with hissued | ⟨no, _, _, heq, hno⟩
  · obtain ⟨c, hc, hid⟩ := List.mem_map.mp hissued
    obtain ⟨text, -, htext⟩ := h.issued c hc
    exact absurd (htext.symm.trans hid) (by simp)
  · obtain ⟨rfl, -, -⟩ := ToolCallId.generated.inj heq
    omega

/-- A call by itself touches neither store. -/
theorem call_stores (s : AgentState F) (x : ToolOutcome F) (hphase : ∀ live ∈ s.live,
      ∃ remaining outputs due, live.phase = .tools remaining outputs due) :
    (agentStep g base s (.call x)).thread = s.thread ∧
      (agentStep g base s (.call x)).checkpoint = s.checkpoint := by
  unfold agentStep
  split
  · exact ⟨rfl, rfl⟩
  · rename_i live hlive
    obtain ⟨remaining, outputs, due, heq⟩ := hphase live hlive
    rw [heq]
    cases remaining with
    | nil => exact ⟨rfl, rfl⟩
    | cons c remaining =>
      cases due with
      | true => exact ⟨rfl, rfl⟩
      | false =>
        simp only [toolCall]
        split <;> exact ⟨rfl, rfl⟩

/-- **A replay is exact but for the commands.** A worker stops in the tools
node, after the checkpoint of its `k`-th call, and the next attempt replays
the message: what was completed is answered from the cache and what was not
is run once exactly when none of the completed calls is a `run_command`. -/
theorem replay_exact {es : List (AgentEvent F)}
    (hes : (agentMachine g base).Admits FreshIds (agentMachine g base).init es) {live : Live F}
    {calls : List ToolCall} (hlive : ((agentMachine g base).run es).live = some live)
    (hphase : live.phase = .tools calls [] false) {xs ys : List (ToolOutcome F)}
    (begun : Option (ToolOutcome F)) (hk : xs ≠ []) (hn : xs.length ≤ calls.length)
    (hxs : ∀ x ∈ xs, x.isCrash = false) (hys : ∀ y ∈ ys, y.isCrash = false)
    (hlength : ys.length = calls.length) :
    ∃ outputs inject, ∃ stopped resumed : Live F,
      ((agentMachine g base).run (es ++ madeCalls xs)).live = some stopped ∧
        stopped.phase = .tools (calls.drop xs.length) outputs false ∧
      ((agentMachine g base).run (es ++ stoppedRun xs begun ys)).live = some resumed ∧
        resumed.phase = .replaying [] inject ∧
      (NotReplayed calls xs.length outputs inject resumed.toolset ↔
        ∀ c ∈ calls.take xs.length, Completed outputs c → c.request.isCommand = false) := by
  set M := agentMachine g base
  have hinv : AgentInv False g base (M.run es) :=
    M.runFrom_of_admits (P := AgentInv False g base)
      (fun _ e h hc => h.step e hc False.elim) AgentInv.init hes
  obtain ⟨hcalls, hissued, hnodup, hkeys⟩ := hinv.starting hlive hphase
  obtain ⟨s₁, t₁, outputs, hrun₁, hfirst, hthread₁, -, hlive₁, hcheckpoint⟩ :=
    run_madeCalls g base hlive hphase hn hxs
  have hsteps : ∀ (fs : List (AgentEvent F)), (∀ e ∈ fs, ∀ s, FreshIds s e) →
      AgentInv False g base (M.runFrom (M.run es) fs) := fun fs hfs =>
    M.runFrom_of_admits (P := AgentInv False g base)
      (fun _ e h hc => h.step e hc False.elim) hinv (M.admits_of_forall hfs _)
  -- The state the worker stops in: the call that had begun is in neither store.
  obtain ⟨s₂, hrun₂, hinv₂, hthread₂, hcheckpoint₂⟩ : ∃ s₂,
      M.runFrom (M.run es) (madeCalls xs ++ begun.toList.map .call) = s₂ ∧
        AgentInv False g base s₂ ∧ s₂.thread = (M.run es).thread ∧
        s₂.checkpoint = some ⟨t₁.workspace, t₁.completed⟩ := by
    refine ⟨_, rfl, hsteps _ ?_, ?_⟩
    · intro e he s
      rcases List.mem_append.mp he with he | he
      · obtain ⟨x, -, he⟩ := List.mem_flatMap.mp he
        rcases List.mem_pair.mp he with rfl | rfl <;> trivial
      · obtain ⟨x, -, rfl⟩ := List.mem_map.mp he
        trivial
    · rw [M.runFrom_append, hrun₁, ← hthread₁, ← hcheckpoint hk]
      cases begun with
      | none => exact ⟨rfl, rfl⟩
      | some x =>
        refine call_stores s₁ x fun live' hlive' => ?_
        rw [hlive₁] at hlive'
        obtain rfl := Option.some.inj hlive'
        exact ⟨_, _, _, rfl⟩
  have hmessages : s₂.thread.messages ≠ [] := by
    rw [hthread₂]
    intro hnil
    rw [hnil] at hcalls
    rw [← hcalls] at hn
    exact hk (List.eq_nil_of_length_eq_zero (Nat.le_zero.mp hn))
  obtain ⟨u, hu, hcompleted, hevents, hunew, hreplaying⟩ := hinv₂.restart hcheckpoint₂ hmessages
  rw [hthread₂, hcalls] at hreplaying
  obtain ⟨s₃, resumed, inject, hrun₃, hsecond, hresumed, hdone⟩ :=
    run_replay g base hu hreplaying hlength hys
  refine ⟨outputs, inject, { live with
    toolset := t₁, phase := .tools (calls.drop xs.length) outputs false }, resumed, ?_, rfl, ?_,
    hdone, ?_⟩
  · rw [M.run_append, hrun₁]
    exact hlive₁
  · rw [M.run_append, stoppedRun, M.runFrom_append, M.runFrom_append, hrun₂, hrun₃, hresumed]
  · refine notReplayed_iff hissued hnodup hkeys (hinv.newIds hlive) hfirst ?_ hevents hunew hsecond
    unfold Toolset.keys
    rw [hcompleted]

/-! ### Two messages -/

/-- A patch and a command, both completed; the worker stops, and the command
is run by the next attempt too. -/
def commandCalls : List ToolCall := [patchCall "a" "first", ⟨.issued "b", .runCommand "pytest -q"⟩]

def commandRun : List (AgentEvent (List String)) :=
  [.start, .respond commandCalls] ++ stoppedRun [runs, runs] none [runs, runs]

theorem command_replayed :
    ∃ (outputs inject : List Message) (stopped resumed : Live (List String)),
      ((agentMachine patchGit []).run
          ([.start, .respond commandCalls] ++ madeCalls [runs, runs])).live = some stopped ∧
        stopped.phase = .tools [] outputs false ∧
      ((agentMachine patchGit []).run commandRun).live = some resumed ∧
        resumed.phase = .replaying [] inject ∧
      (∀ c ∈ commandCalls, Completed outputs c) ∧
      ¬ NotReplayed commandCalls 2 outputs inject resumed.toolset := by
  refine ⟨_, _, _, _, rfl, rfl, rfl, rfl, ?_, fun h => ?_⟩
  · intro c hc
    rcases List.mem_pair.mp hc with rfl | rfl
    · exact ⟨.applied, by decide, rfl⟩
    · exact ⟨.output "", by decide, rfl⟩
  · have hcached := h.cached ⟨.issued "b", .runCommand "pytest -q"⟩ (by decide) rfl
      ⟨.output "", by decide, rfl⟩
    exact absurd hcached.2.2 (by decide)

/-- Two patches, of which the worker completes one. -/
theorem replay_exact_of_patches :
    ∃ (outputs inject : List Message) (resumed : Live (List String)),
      ((agentMachine patchGit []).run ([.start, .respond [patchCall "a" "first",
        patchCall "b" "second"]] ++ stoppedRun [runs] (some runs) [runs, runs])).live =
          some resumed ∧
      NotReplayed [patchCall "a" "first", patchCall "b" "second"] 1 outputs inject
        resumed.toolset := by
  obtain ⟨outputs, inject, _, resumed, -, -, hresumed, -, hiff⟩ :=
    @replay_exact _ patchGit [] [.start, .respond [patchCall "a" "first", patchCall "b" "second"]]
      (by decide) _ _ rfl rfl [runs] [runs, runs] (some runs) (by decide) (by decide) (by decide)
      (by decide) rfl
  refine ⟨outputs, inject, resumed, hresumed, hiff.mpr fun c hc _ => ?_⟩
  obtain rfl := List.mem_singleton.mp hc
  rfl

end Runtime

end AgentReliability
