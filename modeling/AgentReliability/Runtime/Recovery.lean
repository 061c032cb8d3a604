import AgentReliability.Runtime.SelfAgent
import Mathlib.Data.List.Nodup
/-!
# What a resumed agent finds

Every stored report of a patch is backed by the work tree of the latest
checkpoint, or by a patch the replay has run and no checkpoint has followed.
So as long as no attempt starts while such a patch is unsaved, the model is
never told of a patch its work tree does not have. The tools node saves
after each of its calls; the replay does not.
-/

namespace AgentReliability

namespace Runtime

variable {F : Type} {g : Git F} {base : F} {careful : Prop}

/-! ## The calls of a thread -/

/-- The tool calls of the model, in order. -/
def callsOf (messages : List Message) : List ToolCall :=
  messages.flatMap fun
    | .ai calls => calls
    | _ => []

def issuedIds (messages : List Message) : List ToolCallId := (callsOf messages).map (·.id)

theorem callsOf_append (messages new : List Message) :
    callsOf (messages ++ new) = callsOf messages ++ callsOf new := List.flatMap_append

/-- A message that is not the model's. -/
def Message.isAnswer : Message → Bool
  | ai _ => false
  | _ => true

theorem callsOf_answers {new : List Message} (h : ∀ m ∈ new, m.isAnswer) : callsOf new = [] := by
  refine List.flatMap_eq_nil_iff.mpr fun m hm => ?_
  have hm := h m hm
  cases m with
  | ai => exact absurd hm (by simp [Message.isAnswer])
  | _ => rfl

theorem danglingCalls_subset {messages : List Message} {c : ToolCall}
    (h : c ∈ danglingCalls messages) : c ∈ callsOf messages := by
  unfold danglingCalls at h
  split at h
  · rename_i calls hlast
    exact List.mem_flatMap.mpr ⟨_, List.mem_of_getLast? hlast, h⟩
  · exact absurd h (by simp)

/-- Every report of a patch of `calls` among `messages` satisfies `P`. -/
def BackedBy (calls : List ToolCall) (messages : List Message) (P : String → Prop) : Prop :=
  ∀ c ∈ calls, ∀ patch, c.request = .applyPatch patch → ∀ content,
    .tool c.id content ∈ messages → content.reportsApplied → P patch

theorem BackedBy.mono {calls : List ToolCall} {messages : List Message} {P Q : String → Prop}
    (h : BackedBy calls messages P) (hPQ : ∀ patch, P patch → Q patch) : BackedBy calls messages Q :=
  fun c hc patch hpatch content hm hcontent => hPQ _ (h c hc patch hpatch content hm hcontent)

theorem BackedBy.append {calls : List ToolCall} {messages new : List Message} {P : String → Prop}
    (h : BackedBy calls messages P) (hnew : BackedBy calls new P) : BackedBy calls (messages ++ new) P := by
  intro c hc patch hpatch content hm hcontent
  rcases List.mem_append.mp hm with hm | hm
  · exact h c hc patch hpatch content hm hcontent
  · exact hnew c hc patch hpatch content hm hcontent

/-- The report of one call. -/
theorem BackedBy.singleton {calls : List ToolCall} {P : String → Prop} {c : ToolCall}
    {content : ToolContent} (hc : c ∈ calls) (hnodup : (calls.map (·.id)).Nodup)
    (h : ∀ patch, c.request = .applyPatch patch → content.reportsApplied → P patch) :
    BackedBy calls [.tool c.id content] P := by
  intro c' hc' patch hpatch content' hm hcontent
  obtain ⟨hid, rfl⟩ := Message.tool.inj (List.mem_singleton.mp hm)
  obtain rfl := List.inj_on_of_nodup_map hnodup hc' hc hid
  exact h patch hpatch hcontent

/-! ## The claim -/

/-- A tool message reports a patch of the thread as applied, skipped as
applied, or cached. -/
def Reported (messages : List Message) (patch : String) : Prop :=
  ∃ c ∈ callsOf messages, c.request = .applyPatch patch ∧
    ∃ content, .tool c.id content ∈ messages ∧ content.reportsApplied

/-- **Conversation and work tree agree**: when the model is invoked, every
patch it is told of is there. -/
def Agrees (g : Git F) (s : AgentState F) : Prop :=
  ∀ live ∈ s.live, live.phase = .agent → ∀ patch, Reported s.thread.messages patch →
    live.toolset.workspace.Contains g patch

/-- The model issues an id of its own with every call. -/
def FreshIds (s : AgentState F) : AgentEvent F → Prop
  | .respond calls => (∀ c ∈ calls, c.id.isIssued) ∧ (calls.map (·.id)).Nodup ∧
      ∀ c ∈ calls, c.id ∉ issuedIds s.thread.messages
  | _ => True

/-- No attempt starts while a patch the replay has run is unsaved. -/
def Saved (s : AgentState F) : AgentEvent F → Prop
  | .start => s.unsaved = []
  | _ => True

instance (s : AgentState F) (e : AgentEvent F) : Decidable (FreshIds s e) := by
  unfold FreshIds; split <;> infer_instance

instance (s : AgentState F) (e : AgentEvent F) : Decidable (Saved s e) := by
  unfold Saved; split <;> infer_instance

/-! ## The invariant -/

/-- The ids the latest checkpoint has as completed. -/
def AgentState.savedKeys (s : AgentState F) : List ToolCallId :=
  ((s.checkpoint.map (·.completed)).getD []).map (·.1)

/-- What an attempt in progress has, by its phase. -/
def PhaseInv (g : Git F) (base : F) (s : AgentState F) (live : Live F) : Phase → Prop
  | .replaying remaining inject =>
    (∀ c ∈ remaining, c ∈ callsOf s.thread.messages) ∧
      (remaining = [] → inject = [] → danglingCalls s.thread.messages = []) ∧
      (∀ m ∈ inject, ∃ c ∈ callsOf s.thread.messages, ∃ content, m = .tool c.id content) ∧
      BackedBy (callsOf s.thread.messages) inject
        (fun patch => (s.restored base).Contains g patch ∨ patch ∈ live.replayed) ∧
      (∀ patch ∈ live.replayed, live.toolset.workspace.Contains g patch) ∧
      ∀ c ∈ callsOf s.thread.messages, ∀ patch, c.request = .applyPatch patch →
        c.id ∈ live.toolset.keys → (s.restored base).Contains g patch ∨ patch ∈ live.replayed
  | .tools remaining outputs due =>
    (∃ made, danglingCalls s.thread.messages = made ++ remaining ∧ made.length = outputs.length) ∧
      (∀ c ∈ remaining, c ∈ callsOf s.thread.messages ∧ c.id ∉ live.toolset.keys) ∧
      (remaining.map (·.id)).Nodup ∧
      (∀ m ∈ outputs, ∃ c ∈ callsOf s.thread.messages, ∃ content, m = .tool c.id content) ∧
      BackedBy (callsOf s.thread.messages) outputs
        (fun patch => if due then live.toolset.workspace.Contains g patch
          else (s.restored base).Contains g patch)
  | _ => True

structure LiveInv (careful : Prop) (g : Git F) (base : F) (s : AgentState F) (live : Live F) :
    Prop where
  restored : (s.restored base).Extends live.toolset.workspace
  unsaved : careful → ∀ patch ∈ s.unsaved, live.toolset.workspace.Contains g patch
  attemptNo : live.toolset.attemptNo = s.attempts
  /-- A completed id is the model's, or one this or an earlier attempt has
  given. -/
  known : ∀ key ∈ live.toolset.keys, key ∈ issuedIds s.thread.messages ∨
    ∃ no sequence counter, key = .generated no sequence counter ∧
      (no < s.attempts ∨ no = s.attempts ∧ counter ≤ live.toolset.counter)
  covered : ∀ c ∈ callsOf s.thread.messages, ∀ patch, c.request = .applyPatch patch →
    c.id ∈ live.toolset.keys → live.toolset.workspace.Contains g patch
  phase : PhaseInv g base s live live.phase

/-- **The invariant of a run.** What it says of the patches reported so far
needs every attempt to have started with nothing unsaved. -/
structure AgentInv (careful : Prop) (g : Git F) (base : F) (s : AgentState F) : Prop where
  issued : ∀ c ∈ callsOf s.thread.messages, ∃ text, text ≠ "" ∧ c.id = .issued text
  nodup : (issuedIds s.thread.messages).Nodup
  answered : ∀ id content, .tool id content ∈ s.thread.messages → id ∈ issuedIds s.thread.messages
  /-- Every stored report is backed by the checkpoint, or not saved yet. -/
  reported : careful → BackedBy (callsOf s.thread.messages) s.thread.messages
    (fun patch => (s.restored base).Contains g patch ∨ patch ∈ s.unsaved)
  known : ∀ key ∈ s.savedKeys, key ∈ issuedIds s.thread.messages ∨
    ∃ no sequence counter, key = .generated no sequence counter ∧ no ≤ s.attempts
  covered : ∀ c ∈ callsOf s.thread.messages, ∀ patch, c.request = .applyPatch patch →
    c.id ∈ s.savedKeys → (s.restored base).Contains g patch
  live : ∀ live ∈ s.live, LiveInv careful g base s live

theorem AgentInv.agrees {s : AgentState F} (h : AgentInv True g base s) : Agrees g s := by
  rintro live hlive - patch ⟨c, hc, hpatch, content, hm, hcontent⟩
  have hinv := h.live live hlive
  rcases h.reported trivial c hc patch hpatch content hm hcontent with hsaved | hunsaved
  · exact hsaved.of_extends hinv.restored
  · exact hinv.unsaved trivial patch hunsaved

theorem AgentInv.init : AgentInv careful g base (agentMachine g base).init where
  issued := fun c hc => absurd hc (by simp [agentMachine, callsOf])
  nodup := List.nodup_nil
  answered := fun id content hm => absurd hm (by simp [agentMachine])
  reported := fun _ c hc => absurd hc (by simp [agentMachine, callsOf])
  known := fun key hkey => absurd hkey (by simp [agentMachine, AgentState.savedKeys])
  covered := fun c hc => absurd hc (by simp [agentMachine, callsOf])
  live := fun live hlive => absurd hlive (by simp [agentMachine])

/-! ## Its steps -/

theorem mem_lackedPatch {saved : Workspace F} {t : Toolset F} {c : ToolCall} {content : ToolContent}
    {patch : String} : patch ∈ lackedPatch g saved t c content ↔
      c.request = .applyPatch patch ∧ content.reportsApplied ∧ c.id ∉ t.keys ∧
        ¬ saved.Contains g patch := by
  unfold lackedPatch
  split
  · rename_i patch' hrequest
    rw [hrequest, ToolRequest.applyPatch.injEq]
    split
    · rename_i h
      rw [List.mem_singleton]
      constructor
      · rintro rfl
        exact ⟨rfl, h⟩
      · rintro ⟨rfl, -⟩
        rfl
    · rename_i h
      constructor
      · exact fun hmem => absurd hmem (by simp)
      · rintro ⟨rfl, hrest⟩
        exact absurd hrest h
  · rename_i hrequest
    constructor
    · exact fun hmem => absurd hmem (by simp)
    · exact fun hmem => absurd hmem.1 (hrequest patch)

namespace AgentInv

variable {s : AgentState F} (h : AgentInv careful g base s)

include h

theorem stop : AgentInv careful g base { s with live := none } :=
  ⟨h.issued, h.nodup, h.answered, h.reported, h.known, h.covered,
    fun live hlive => absurd hlive (by simp)⟩

theorem start (hsaved : careful → s.unsaved = []) : AgentInv careful g base (startAttempt base s) := by
  have hknown : ∀ key ∈ s.savedKeys, key ∈ issuedIds s.thread.messages ∨
      ∃ no sequence counter, key = .generated no sequence counter ∧ no < s.attempts + 1 := by
    intro key hkey
    rcases h.known key hkey with hissued | ⟨no, sequence, counter, hkey, hno⟩
    · exact .inl hissued
    · exact .inr ⟨no, sequence, counter, hkey, by omega⟩
  unfold startAttempt
  split
  · refine ⟨h.issued, h.nodup, h.answered, h.reported, fun key hkey => ?_, h.covered, ?_⟩
    · rcases hknown key hkey with hissued | ⟨no, sequence, counter, hkey, hno⟩
      · exact .inl hissued
      · exact .inr ⟨no, sequence, counter, hkey, Nat.le_of_lt hno⟩
    · rintro live hlive
      obtain rfl := Option.some.inj hlive
      refine ⟨.refl _, ?_, rfl, fun key hkey => ?_, h.covered, ?_⟩
      · intro hcareful patch hpatch
        rw [show ({ s with attempts := _, live := _ } : AgentState F).unsaved = [] from
          hsaved hcareful] at hpatch
        exact absurd hpatch (by simp)
      · exact (hknown key hkey).imp_right fun ⟨no, sequence, counter, hkey, hno⟩ =>
          ⟨no, sequence, counter, hkey, .inl hno⟩
      · exact ⟨fun c hc => danglingCalls_subset hc, fun hremaining _ => hremaining,
          fun m hm => absurd hm (by simp), fun c hc patch hpatch content hm => absurd hm (by simp),
          fun patch hpatch => absurd hpatch (by simp),
          fun c hc patch hpatch hkey => .inl (h.covered c hc patch hpatch hkey)⟩
  · -- The first messages hold no call and no answer of a tool.
    have hcalls : callsOf (s.thread.messages ++ initialMessages) = callsOf s.thread.messages := by
      rw [callsOf_append, show callsOf initialMessages = [] from rfl, List.append_nil]
    have htool : ∀ id content, .tool id content ∈ s.thread.messages ++ initialMessages →
        .tool id content ∈ s.thread.messages := by
      intro id content hm
      rcases List.mem_append.mp hm with hm | hm
      · exact hm
      · simp [initialMessages] at hm
    constructor
    all_goals simp only [issuedIds, hcalls]
    · exact h.issued
    · exact h.nodup
    · exact fun id content hm => h.answered id content (htool id content hm)
    · intro hcareful c hc patch hpatch content hm
      exact h.reported hcareful c hc patch hpatch content (htool _ _ hm)
    · intro key hkey
      rcases hknown key hkey with hissued | ⟨no, sequence, counter, hkey, hno⟩
      · exact .inl hissued
      · exact .inr ⟨no, sequence, counter, hkey, Nat.le_of_lt hno⟩
    · exact h.covered
    · rintro live hlive
      obtain rfl := Option.some.inj hlive
      constructor
      all_goals simp only [issuedIds, hcalls]
      · exact .refl _
      · intro hcareful patch hpatch
        rw [hsaved hcareful] at hpatch
        exact absurd hpatch (by simp)
      · exact fun key hkey => (hknown key hkey).imp_right fun ⟨no, sequence, counter, hkey, hno⟩ =>
          ⟨no, sequence, counter, hkey, .inl hno⟩
      · exact h.covered
      · trivial

/-- A call of the thread has an id of the model's. -/
theorem id_ne {c : ToolCall} (hc : c ∈ callsOf s.thread.messages) : c.id ≠ .issued "" := by
  obtain ⟨text, htext, hid⟩ := h.issued c hc
  rw [hid]
  exact fun heq => htext (ToolCallId.issued.inj heq)

theorem eq_of_id {c c' : ToolCall} (hc : c ∈ callsOf s.thread.messages)
    (hc' : c' ∈ callsOf s.thread.messages) (hid : c.id = c'.id) : c = c' :=
  List.inj_on_of_nodup_map h.nodup hc hc' hid

section

variable {live : Live F} (hlive : LiveInv careful g base s live) {c : ToolCall} {toolset : Toolset F}
  {content : ToolContent} (hc : c ∈ callsOf s.thread.messages)
  (ha : live.toolset.Answered g c toolset content)

include hlive hc ha

omit hlive in
/-- What an answered call adds to the completed ids: for a patch its own,
which the work tree then has. -/
theorem of_completed {c' : ToolCall} (hc' : c' ∈ callsOf s.thread.messages)
    (hkey : c'.id ∈ toolset.keys) :
    c'.id ∈ live.toolset.keys ∨ (c' = c ∧ c.id ∉ live.toolset.keys ∧
      ∀ patch, c.request = .applyPatch patch →
        toolset.workspace.Contains g patch ∧ content.reportsApplied) := by
  rcases ha.of_mem_keys hkey with hold | ⟨hcall, hnew, -, -, hpatch⟩
  · exact .inl hold
  · rcases Toolset.callId_cases live.toolset (h.id_ne hc) with ⟨hid, -⟩ | ⟨hid, -⟩
    · rw [hid] at hcall
      obtain rfl := h.eq_of_id hc' hc hcall
      exact .inr ⟨rfl, hnew, hpatch⟩
    · -- An id of the toolset is none of the model's.
      obtain ⟨text, -, htext⟩ := h.issued c' hc'
      rw [hid, htext] at hcall
      exact absurd hcall (by simp [Toolset.nextId])

/-- An answered call keeps all that does not depend on the phase. -/
theorem liveInv_of_answered {live' : Live F} (htoolset : live'.toolset = toolset)
    (hphase : PhaseInv g base s live' live'.phase) : LiveInv careful g base s live' := by
  refine ⟨?_, ?_, ?_, ?_, ?_, hphase⟩ <;> rw [htoolset]
  · exact hlive.restored.trans ha.extends_workspace
  · exact fun hcareful patch hpatch =>
      (hlive.unsaved hcareful patch hpatch).of_extends ha.extends_workspace
  · rw [ha.attemptNo, hlive.attemptNo]
  · intro key hkey
    rcases ha.of_mem_keys hkey with hold | ⟨hcall, -, -, hcounter, -⟩
    · refine (hlive.known key hold).imp_right fun ⟨no, sequence, counter, hgen, hno⟩ =>
        ⟨no, sequence, counter, hgen, hno.imp_right fun ⟨hno, hle⟩ => ⟨hno, ?_⟩⟩
      exact Nat.le_trans hle ha.counter_le
    · rcases Toolset.callId_cases live.toolset (h.id_ne hc) with ⟨hid, -⟩ | ⟨hid, -⟩
      · rw [hid] at hcall
        exact .inl (hcall ▸ List.mem_map_of_mem hc)
      · rw [hid] at hcall hcounter
        exact .inr ⟨_, _, _, hcall, .inr ⟨hlive.attemptNo, Nat.le_of_eq hcounter.symm⟩⟩
  · intro c' hc' patch hpatch hkey
    rcases of_completed h hc ha hc' hkey with hold | ⟨rfl, -, hnew⟩
    · exact (hlive.covered c' hc' patch hpatch hold).of_extends ha.extends_workspace
    · exact (hnew patch hpatch).1

/-- What a report of a patch says of the work tree. -/
theorem contains_of_reported {patch : String} (hpatch : c.request = .applyPatch patch)
    (hcontent : content.reportsApplied) : toolset.workspace.Contains g patch := by
  rcases ha.reported hpatch (h.id_ne hc) hcontent with hcached | ⟨hran, -⟩
  · exact (hlive.covered c hc patch hpatch hcached).of_extends ha.extends_workspace
  · exact hran

end

/-- Only the attempt in progress changes. -/
theorem of_live {live : Live F} (hlive : LiveInv careful g base s live) :
    AgentInv careful g base { s with live := some live } :=
  ⟨h.issued, h.nodup, h.answered, h.reported, h.known, h.covered, fun live' hlive' => by
    obtain rfl := Option.some.inj hlive'
    exact ⟨hlive.restored, hlive.unsaved, hlive.attemptNo, hlive.known, hlive.covered,
      hlive.phase⟩⟩

theorem replayCall {live : Live F} (hlive : LiveInv careful g base s live) {c : ToolCall}
    {remaining : List ToolCall} {inject : List Message}
    (hphase : live.phase = .replaying (c :: remaining) inject) (x : ToolOutcome F) :
    AgentInv careful g base (replayCall g base s live c remaining inject x) := by
  unfold Runtime.replayCall
  split
  · exact h.stop
  · rename_i toolset content hdispatch
    have ha := Toolset.answered_of_dispatch hdispatch
    have hinv := hlive.phase
    rw [hphase] at hinv
    obtain ⟨hcalls, -, hknown, hbacked, hreplayed, hcompleted⟩ := hinv
    have hc := hcalls c List.mem_cons_self
    -- A patch the replay runs is in the checkpoint, or is noted.
    have hran : ∀ patch, c.request = .applyPatch patch → content.reportsApplied →
        c.id ∉ live.toolset.keys → (s.restored base).Contains g patch ∨
          patch ∈ lackedPatch g (s.restored base) live.toolset c content := by
      intro patch hpatch hcontent hnew
      by_cases hsaved : (s.restored base).Contains g patch
      · exact .inl hsaved
      · exact .inr (mem_lackedPatch.mpr ⟨hpatch, hcontent, hnew, hsaved⟩)
    refine h.of_live (h.liveInv_of_answered hlive hc ha rfl
      ⟨fun c' hc' => hcalls c' (List.mem_cons_of_mem _ hc'), fun _ hnil => absurd hnil (by simp),
        ?_, BackedBy.append (hbacked.mono fun patch => ?_) (.singleton hc h.nodup ?_), ?_, ?_⟩)
    · intro m hm
      rcases List.mem_append.mp hm with hm | hm
      · exact hknown m hm
      · exact ⟨c, hc, content, List.mem_singleton.mp hm⟩
    · exact Or.imp_right (List.mem_append_left _)
    · intro patch hpatch hcontent
      rcases ha.reported hpatch (h.id_ne hc) hcontent with hcached | ⟨-, hnew⟩
      · exact (hcompleted c hc patch hpatch hcached).imp_right (List.mem_append_left _)
      · exact (hran patch hpatch hcontent hnew).imp_right (List.mem_append_right _)
    · intro patch hpatch
      rcases List.mem_append.mp hpatch with hpatch | hpatch
      · exact (hreplayed patch hpatch).of_extends ha.extends_workspace
      · obtain ⟨hrequest, hcontent, -⟩ := mem_lackedPatch.mp hpatch
        exact h.contains_of_reported hlive hc ha hrequest hcontent
    · intro c' hc' patch hpatch hkey
      rcases h.of_completed hc ha hc' hkey with hold | ⟨rfl, hnew, hnewpatch⟩
      · exact (hcompleted c' hc' patch hpatch hold).imp_right (List.mem_append_left _)
      · exact (hran patch hpatch (hnewpatch patch hpatch).2 hnew).imp_right
          (List.mem_append_right _)

theorem toolCall {live : Live F} (hlive : LiveInv careful g base s live) {c : ToolCall}
    {remaining : List ToolCall} {outputs : List Message}
    (hphase : live.phase = .tools (c :: remaining) outputs false) (x : ToolOutcome F) :
    AgentInv careful g base (toolCall g s live c remaining outputs x) := by
  unfold Runtime.toolCall
  split
  · exact h.stop
  · rename_i toolset content hdispatch
    have ha := Toolset.answered_of_dispatch hdispatch
    have hinv := hlive.phase
    rw [hphase] at hinv
    obtain ⟨⟨made, hmade, hlength⟩, hcalls, hnodup, hknown, hbacked⟩ := hinv
    have hc := (hcalls c List.mem_cons_self).1
    obtain ⟨hnotin, hnodup⟩ := List.nodup_cons.mp hnodup
    refine h.of_live (h.liveInv_of_answered hlive hc ha rfl
      ⟨⟨made ++ [c], by rw [hmade]; simp, by simp [hlength]⟩, fun c' hc' => ?_, hnodup, ?_, ?_⟩)
    · obtain ⟨hmem, hnew⟩ := hcalls c' (List.mem_cons_of_mem _ hc')
      refine ⟨hmem, fun hkey => ?_⟩
      rcases h.of_completed hc ha hmem hkey with hold | ⟨rfl, -⟩
      · exact hnew hold
      · exact hnotin (List.mem_map_of_mem hc')
    · intro m hm
      rcases List.mem_append.mp hm with hm | hm
      · exact hknown m hm
      · exact ⟨c, hc, content, List.mem_singleton.mp hm⟩
    · refine BackedBy.append (hbacked.mono fun patch hsaved => ?_) (.singleton hc h.nodup ?_)
      · exact (hsaved.of_extends hlive.restored).of_extends ha.extends_workspace
      · exact fun patch hpatch hcontent => h.contains_of_reported hlive hc ha hpatch hcontent

/-- Answers are appended to the thread: those of its own calls, and no call
of the model. -/
theorem of_messages {messages : List Message} {next : Node} {unsaved : List String}
    (hknown : ∀ m ∈ messages, (∃ c ∈ callsOf s.thread.messages, ∃ content, m = .tool c.id content) ∨
      ∃ text, m = .human text)
    (hbacked : BackedBy (callsOf s.thread.messages) messages
      (fun patch => (s.restored base).Contains g patch ∨ patch ∈ unsaved))
    (hkept : ∀ patch ∈ s.unsaved, patch ∈ unsaved) {live : Live F}
    (hlive : LiveInv careful g base s live) (hunsaved : careful → ∀ patch ∈ unsaved,
      live.toolset.workspace.Contains g patch) :
    AgentInv careful g base { s with
      thread := { messages := s.thread.messages ++ messages, next }
      unsaved
      live := some { live with phase := .agent, replayed := [] } } := by
  have hcalls : callsOf (s.thread.messages ++ messages) = callsOf s.thread.messages := by
    have hnone : callsOf messages = [] := by
      refine callsOf_answers fun m hm => ?_
      rcases hknown m hm with ⟨c, -, content, rfl⟩ | ⟨text, rfl⟩ <;> rfl
    rw [callsOf_append, hnone, List.append_nil]
  constructor
  all_goals simp only [issuedIds, hcalls]
  · exact h.issued
  · exact h.nodup
  · intro id content hm
    rcases List.mem_append.mp hm with hm | hm
    · exact h.answered id content hm
    · rcases hknown _ hm with ⟨c, hc, content', heq⟩ | ⟨text, heq⟩
      · rw [(Message.tool.inj heq).1]
        exact List.mem_map_of_mem hc
      · exact absurd heq (by simp)
  · refine fun hcareful => BackedBy.append ((h.reported hcareful).mono fun patch => ?_) hbacked
    exact Or.imp_right (hkept patch)
  · exact h.known
  · exact h.covered
  · rintro live' hlive'
    obtain rfl := Option.some.inj hlive'
    constructor
    all_goals simp only [issuedIds, hcalls]
    · exact hlive.restored
    · exact hunsaved
    · exact hlive.attemptNo
    · exact hlive.known
    · exact hlive.covered
    · trivial

theorem update {live : Live F} (hlive : LiveInv careful g base s live) {inject : List Message}
    (hphase : live.phase = .replaying [] inject) (feedback : Option String) :
    AgentInv careful g base (updateState s live inject feedback) := by
  have hinv := hlive.phase
  rw [hphase] at hinv
  obtain ⟨-, hdangling, hknown, hbacked, hreplayed, -⟩ := hinv
  unfold updateState
  dsimp only
  split
  · rename_i hnil
    refine h.of_live ⟨hlive.restored, hlive.unsaved, hlive.attemptNo, hlive.known, hlive.covered, ?_⟩
    -- With nothing to inject there was no call to answer.
    have hnone := hdangling rfl (List.append_eq_nil_iff.mp hnil).1
    cases s.thread.next with
    | agent => trivial
    | finish => trivial
    | tools =>
      dsimp only
      rw [hnone]
      exact ⟨⟨[], hnone, rfl⟩, fun c hc => absurd hc (by simp), List.nodup_nil,
        fun m hm => absurd hm (by simp), fun c hc patch hpatch content hm => absurd hm (by simp)⟩
  · refine h.of_messages (fun m hm => ?_) (BackedBy.append (hbacked.mono fun patch => ?_) ?_)
      (fun patch => List.mem_append_left _) hlive fun hcareful patch hpatch => ?_
    · rcases List.mem_append.mp hm with hm | hm
      · exact .inl (hknown m hm)
      · obtain ⟨text, -, rfl⟩ := Option.map_eq_some_iff.mp (Option.mem_toList.mp hm)
        exact .inr ⟨text, rfl⟩
    · exact Or.imp_right (List.mem_append_right _)
    · intro c hc patch hpatch content hm
      obtain ⟨text, -, heq⟩ := Option.map_eq_some_iff.mp (Option.mem_toList.mp hm)
      exact absurd heq (by simp)
    · rcases List.mem_append.mp hpatch with hpatch | hpatch
      · exact hlive.unsaved hcareful patch hpatch
      · exact hreplayed patch hpatch

theorem persist {live : Live F} (hlive : LiveInv careful g base s live) {outputs : List Message}
    (hphase : live.phase = .tools [] outputs false) :
    AgentInv careful g base { s with
      thread := { messages := s.thread.messages ++ outputs, next := .agent }
      live := some { live with phase := .agent } } := by
  have hinv := hlive.phase
  rw [hphase] at hinv
  obtain ⟨-, -, -, hknown, hbacked⟩ := hinv
  have hnext : AgentInv careful g base { s with
      thread := { messages := s.thread.messages ++ outputs, next := .agent }
      live := some { live with phase := .agent, replayed := [] } } :=
    h.of_messages (fun m hm => .inl (hknown m hm)) (hbacked.mono fun _ hsaved => .inl hsaved)
      (fun _ hpatch => hpatch) hlive hlive.unsaved
  exact ⟨hnext.issued, hnext.nodup, hnext.answered, hnext.reported, hnext.known, hnext.covered,
    fun live' hlive' => by
      obtain rfl := Option.some.inj hlive'
      have hagent := hnext.live _ rfl
      exact ⟨hagent.restored, hagent.unsaved, hagent.attemptNo, hagent.known, hagent.covered,
        trivial⟩⟩

theorem onCheckpoint {live : Live F} (hlive : LiveInv careful g base s live) {phase : Phase}
    (hphase : (∃ remaining outputs, live.phase = .tools remaining outputs true ∧
      phase = .tools remaining outputs false) ∨ phase = .finished) :
    AgentInv careful g base (onCheckpoint s live phase) := by
  refine ⟨h.issued, h.nodup, h.answered, ?_, ?_, hlive.covered, fun live' hlive' => ?_⟩
  · refine fun hcareful => (h.reported hcareful).mono fun patch hpatch => .inl ?_
    rcases hpatch with hsaved | hunsaved
    · exact hsaved.of_extends hlive.restored
    · exact hlive.unsaved hcareful patch hunsaved
  · intro key hkey
    refine (hlive.known key hkey).imp_right fun ⟨no, sequence, counter, hgen, hno⟩ =>
      ⟨no, sequence, counter, hgen, ?_⟩
    change no ≤ s.attempts
    omega
  · obtain rfl := Option.some.inj hlive'
    refine ⟨.refl _, fun _ patch hpatch => absurd hpatch (by simp [Runtime.onCheckpoint]),
      hlive.attemptNo, hlive.known, hlive.covered, ?_⟩
    rcases hphase with ⟨remaining, outputs, htools, rfl⟩ | rfl
    · have hinv := hlive.phase
      rw [htools] at hinv
      exact hinv
    · trivial

theorem agentNode {live : Live F} (hlive : LiveInv careful g base s live) {calls : List ToolCall}
    (hfresh : FreshIds s (.respond calls)) : AgentInv careful g base (agentNode s live calls) := by
  obtain ⟨hissued, hnodup, hnew⟩ := hfresh
  replace hissued := fun c hc => ToolCallId.isIssued_iff.mp (hissued c hc)
  have hcalls : callsOf (s.thread.messages ++ [.ai calls]) = callsOf s.thread.messages ++ calls := by
    rw [callsOf_append]
    simp [callsOf]
  have hids : issuedIds (s.thread.messages ++ [.ai calls]) =
      issuedIds s.thread.messages ++ calls.map (·.id) := by
    unfold issuedIds
    rw [hcalls, List.map_append]
  -- An id that is completed or answered is none of the new ones.
  have hkeys : ∀ {keys : List ToolCallId}, (∀ key ∈ keys, key ∈ issuedIds s.thread.messages ∨
      ∃ no sequence counter, key = .generated no sequence counter) → ∀ c ∈ calls, c.id ∉ keys := by
    intro keys hknown c hc hkey
    rcases hknown _ hkey with hold | ⟨no, sequence, counter, hgen⟩
    · exact hnew c hc hold
    · obtain ⟨text, -, htext⟩ := hissued c hc
      rw [hgen] at htext
      exact absurd htext (by simp)
  have htool : ∀ id content, .tool id content ∈ s.thread.messages ++ [.ai calls] →
      .tool id content ∈ s.thread.messages := by
    intro id content hm
    rcases List.mem_append.mp hm with hm | hm
    · exact hm
    · simp at hm
  have hsavedKeys := hkeys fun key hkey => (h.known key hkey).imp_right
    fun ⟨no, sequence, counter, hgen, _⟩ => ⟨no, sequence, counter, hgen⟩
  have hliveKeys := hkeys fun key hkey => (hlive.known key hkey).imp_right
    fun ⟨no, sequence, counter, hgen, _⟩ => ⟨no, sequence, counter, hgen⟩
  constructor
  all_goals simp only [Runtime.agentNode, hids, hcalls]
  · intro c hc
    rcases List.mem_append.mp hc with hc | hc
    · exact h.issued c hc
    · exact hissued c hc
  · refine List.nodup_append.mpr ⟨h.nodup, hnodup, fun x hx y hy hxy => ?_⟩
    obtain ⟨c, hc, rfl⟩ := List.mem_map.mp hy
    exact hnew c hc (hxy ▸ hx)
  · exact fun id content hm => List.mem_append_left _ (h.answered id content (htool id content hm))
  · intro hcareful c hc patch hpatch content hm hcontent
    rcases List.mem_append.mp hc with hc | hc
    · exact h.reported hcareful c hc patch hpatch content (htool _ _ hm) hcontent
    · exact absurd (h.answered _ _ (htool _ _ hm)) (hnew c hc)
  · exact fun key hkey => (h.known key hkey).imp_left (List.mem_append_left _)
  · intro c hc patch hpatch hkey
    rcases List.mem_append.mp hc with hc | hc
    · exact h.covered c hc patch hpatch hkey
    · exact absurd hkey (hsavedKeys c hc)
  · rintro live' hlive'
    obtain rfl := Option.some.inj hlive'
    constructor
    all_goals simp only [hids, hcalls]
    · exact hlive.restored
    · exact hlive.unsaved
    · exact hlive.attemptNo
    · exact fun key hkey => (hlive.known key hkey).imp_left (List.mem_append_left _)
    · intro c hc patch hpatch hkey
      rcases List.mem_append.mp hc with hc | hc
      · exact hlive.covered c hc patch hpatch hkey
      · exact absurd hkey (hliveKeys c hc)
    · split
      · trivial
      · refine ⟨⟨[], by simp [danglingCalls], rfl⟩, fun c hc => ⟨?_, hliveKeys c hc⟩, hnodup,
          fun m hm => absurd hm (by simp), fun c hc patch hpatch content hm => absurd hm (by simp)⟩
        change c ∈ callsOf (s.thread.messages ++ [.ai calls])
        rw [hcalls]
        exact List.mem_append_right _ hc

/-- **Every step keeps the invariant**, if the ids are fresh and no attempt
starts with a patch unsaved. -/
theorem step (e : AgentEvent F) (hfresh : FreshIds s e) (hsaved : careful → Saved s e) :
    AgentInv careful g base (agentStep g base s e) := by
  unfold agentStep
  split
  · split
    · exact h.start hsaved
    · exact h
  · rename_i live hlive
    have hinv := h.live live hlive
    split
    · exact h.replayCall hinv ‹_› _
    · exact h.update hinv ‹_› _
    · exact h.agentNode hinv hfresh
    · exact h.toolCall hinv ‹_› _
    · exact h.onCheckpoint hinv (.inl ⟨_, _, ‹_›, rfl⟩)
    · exact h.onCheckpoint hinv (.inr rfl)
    · exact h.persist hinv ‹_›
    · exact h.stop
    · exact h

end AgentInv

/-! ## The result -/

/-- What a run has to meet: the model issues fresh ids, and no attempt
starts while a patch the replay has run is unsaved. -/
def Careful (s : AgentState F) (e : AgentEvent F) : Prop := FreshIds s e ∧ Saved s e

instance (s : AgentState F) (e : AgentEvent F) : Decidable (Careful s e) := by
  unfold Careful; infer_instance

/-- **Conversation and work tree agree** in every state of a run whose
attempts all start with nothing unsaved, however many of them stop and
wherever they do. -/
theorem workspace_agrees {es : List (AgentEvent F)}
    (hes : (agentMachine g base).Admits Careful (agentMachine g base).init es) :
    Agrees g ((agentMachine g base).run es) :=
  ((agentMachine g base).runFrom_of_admits (P := AgentInv True g base)
    (fun _ e h hc => h.step e hc.1 fun _ => hc.2) AgentInv.init hes).agrees

/-! ### Two runs -/

/-- A git on work trees that are the lists of the patches applied to them. -/
def patchGit : Git (List String) where
  apply files patch := some (patch :: files)
  reverses files patch := patch ∈ files

def patchCall (id patch : String) : ToolCall := ⟨.issued id, .applyPatch patch⟩

/-- A tool that runs. -/
def runs : ToolOutcome (List String) := .returned [] "" "digest" 0

/-- The second patch is lost with the work tree of an attempt that stops, is
applied again by the replay of the next, and lost again when that one stops
before its next checkpoint. -/
def lostPatchRun : List (AgentEvent (List String)) := [
  .start, .respond [patchCall "a" "first"], .call runs, .checkpoint, .persist,
  .respond [patchCall "b" "second"], .stop,
  .start, .replay runs, .update none, .stop,
  .start, .update none]

/-- The model is told of a patch that its work tree does not have. -/
theorem replayed_patch_lost :
    (agentMachine patchGit []).Admits FreshIds (agentMachine patchGit []).init lostPatchRun ∧
      ¬ Agrees patchGit ((agentMachine patchGit []).run lostPatchRun) := by
  refine ⟨by decide, fun h => ?_⟩
  have hcontains := h _ rfl rfl "second"
    ⟨patchCall "b" "second", by decide, rfl, .applied, by decide, rfl⟩
  exact absurd hcontains (by decide)

/-- The same stops, with a checkpoint between the replay and the second. -/
def savedPatchRun : List (AgentEvent (List String)) := [
  .start, .respond [patchCall "a" "first"], .call runs, .checkpoint, .persist,
  .respond [patchCall "b" "second"], .stop,
  .start, .replay runs, .update none, .respond [patchCall "c" "third"], .call runs, .checkpoint,
  .stop, .start, .replay runs, .update none]

theorem workspace_agrees_of_saved :
    ∃ live, ((agentMachine patchGit []).run savedPatchRun).live = some live ∧
      live.phase = .agent ∧ live.toolset.workspace.Contains patchGit "second" ∧
      live.toolset.workspace.Contains patchGit "third" := by
  have hagrees := @workspace_agrees _ patchGit [] savedPatchRun (by decide)
  refine ⟨_, rfl, rfl, hagrees _ rfl rfl "second" ?_, hagrees _ rfl rfl "third" ?_⟩
  · exact ⟨patchCall "b" "second", by decide, rfl, .applied, by decide, rfl⟩
  · exact ⟨patchCall "c" "third", by decide, rfl, .cached "apply_patch" "digest", by decide, rfl⟩

end Runtime

end AgentReliability
