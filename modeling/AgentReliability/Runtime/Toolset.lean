import Mathlib.Data.Int.Notation
import Mathlib.Data.List.Basic
import Mathlib.Tactic.Common
/-!
# The tools of the agent

`Toolset` runs the calls of the model in the sandbox of one attempt, and
keeps what it has completed, so that a call which is made again is
answered from there. `SelfAgent._dispatch_tool` turns everything but a
crash of the sandbox into an answer for the model.

The work tree is seen through git: the edits it has been through, the
patches git applied among them, and the patches git finds in its contents.
-/

namespace AgentReliability

namespace Runtime

/-! ## The work tree -/

/-- `git apply` and its reverse check, on the contents of a work tree. -/
structure Git (F : Type) where
  apply : F → String → Option F
  /-- `git apply --check --reverse` succeeds. -/
  reverses : F → String → Bool

/-- An edit of a work tree: the files before it, and the patch `git apply`
made it from, if it was one. -/
structure Edit (F : Type) where
  before : F
  patch : Option String
  deriving DecidableEq, Repr

/-- A work tree: its files, and its edits since the base was checked out,
the latest first. -/
structure Workspace (F : Type) where
  files : F
  past : List (Edit F) := []
  deriving DecidableEq, Repr

namespace Workspace

variable {F : Type}

def contents (w : Workspace F) : List F := w.files :: w.past.map (·.before)

def edit (w : Workspace F) (files : F) (patch : Option String) : Workspace F :=
  ⟨files, ⟨w.files, patch⟩ :: w.past⟩

/-- **The work tree has the effect of a patch**: one of the edits that led
to it applied the patch, or git has found it in one of the contents. -/
def Contains (g : Git F) (w : Workspace F) (patch : String) : Prop :=
  (∃ e ∈ w.past, e.patch = some patch) ∨ ∃ f ∈ w.contents, g.reverses f patch

instance (g : Git F) (w : Workspace F) (patch : String) : Decidable (w.Contains g patch) := by
  unfold Contains; infer_instance

/-- What was edited since: the edits and the contents of the earlier work
tree are among those of the later one. -/
def Extends (w w' : Workspace F) : Prop :=
  (∀ e ∈ w.past, e ∈ w'.past) ∧ ∀ f ∈ w.contents, f ∈ w'.contents

theorem Extends.refl (w : Workspace F) : w.Extends w := ⟨fun _ h => h, fun _ h => h⟩

theorem Extends.trans {u v w : Workspace F} (h₁ : u.Extends v) (h₂ : v.Extends w) : u.Extends w :=
  ⟨fun e he => h₂.1 e (h₁.1 e he), fun f hf => h₂.2 f (h₁.2 f hf)⟩

theorem extends_edit (w : Workspace F) (files : F) (patch : Option String) :
    w.Extends (w.edit files patch) :=
  ⟨fun _ h => List.mem_cons_of_mem _ h, fun _ h => List.mem_cons_of_mem _ h⟩

theorem Contains.of_extends {g : Git F} {w w' : Workspace F} {patch : String}
    (h : w.Contains g patch) (hw : w.Extends w') : w'.Contains g patch := by
  rcases h with ⟨e, he, hpatch⟩ | ⟨f, hf, hreverses⟩
  · exact .inl ⟨e, hw.1 e he, hpatch⟩
  · exact .inr ⟨f, hw.2 f hf, hreverses⟩

theorem contains_of_reverses {g : Git F} {w : Workspace F} {patch : String}
    (h : g.reverses w.files patch) : w.Contains g patch := .inr ⟨w.files, List.mem_cons_self, h⟩

theorem contains_edit (g : Git F) (w : Workspace F) (files : F) (patch : String) :
    (w.edit files (some patch)).Contains g patch := .inl ⟨_, List.mem_cons_self, rfl⟩

end Workspace

/-! ## Calls and answers -/

/-- The id a call is kept under: one the model issued, or one of
`Toolset._next_id`, by its parts beside the run's own id. -/
inductive ToolCallId where
  | issued (id : String)
  | generated (attemptNo sequence counter : ℕ)
  deriving DecidableEq, Repr

/-- An id as a model issues it. -/
def ToolCallId.isIssued : ToolCallId → Bool
  | issued id => id ≠ ""
  | generated .. => false

theorem ToolCallId.isIssued_iff {id : ToolCallId} :
    id.isIssued ↔ ∃ text, text ≠ "" ∧ id = .issued text := by
  cases id <;> simp [isIssued]

inductive ToolRequest where
  | readFile (path : String) (startLine endLine : Option ℤ)
  | searchCode (pattern glob : String)
  | applyPatch (patch : String)
  | runCommand (command : String)
  /-- A tool that does not exist, or one without an argument it needs: the
  answer is an error, and nothing is run. -/
  | invalid (error : String)
  deriving DecidableEq, Repr

structure ToolCall where
  id : ToolCallId
  request : ToolRequest
  deriving DecidableEq, Repr

namespace ToolRequest

/-- The name the tool's events carry. -/
def tool : ToolRequest → String
  | readFile .. => "read_file"
  | searchCode .. => "search_code"
  | applyPatch _ => "apply_patch"
  | runCommand _ => "run_command"
  | invalid _ => ""

/-- The call names a tool and has its arguments. -/
def runs : ToolRequest → Bool
  | invalid _ => false
  | _ => true

def sideEffecting : ToolRequest → Bool
  | applyPatch _ => true
  | runCommand _ => true
  | _ => false

def isPatch : ToolRequest → Bool
  | applyPatch _ => true
  | _ => false

def isCommand : ToolRequest → Bool
  | runCommand _ => true
  | _ => false

end ToolRequest

/-- The answers a tool message may carry. -/
inductive ToolContent where
  /-- `[ok] 补丁已应用`. -/
  | applied
  /-- `[skipped] 补丁已应用（反向校验通过）`. -/
  | skipped
  | output (text : String)
  /-- `[cached] {tool} 已在中断前完成，结果摘要 {digest}`. -/
  | cached (tool digest : String)
  /-- `[error] …`. -/
  | error (text : String)
  deriving DecidableEq, Repr

/-- The answer reports a patch as applied, skipped as applied, or cached. -/
def ToolContent.reportsApplied : ToolContent → Bool
  | applied => true
  | skipped => true
  | cached .. => true
  | _ => false

def ToolContent.isError : ToolContent → Bool
  | error _ => true
  | _ => false

/-- What running a tool comes to, as far as it is not determined: the files
a command leaves, the text that is returned with its digest, and how many
events it emits. A tool may raise at any time, and has then left what files
it has; and the sandbox may crash. -/
inductive ToolOutcome (F : Type) where
  | returned (files : F) (output digest : String) (emitted : ℕ)
  | raised (files : F) (error : String) (emitted : ℕ)
  | crashed
  deriving Repr

def ToolOutcome.isCrash {F : Type} : ToolOutcome F → Bool
  | crashed => true
  | _ => false

/-! ## The toolset of an attempt -/

/-- A `TOOL_CALL` event, and the id the model gave to the call. -/
structure ToolEvent where
  call : ToolCallId
  toolCallId : ToolCallId
  tool : String
  cached : Bool
  failed : Bool := false
  deriving DecidableEq, Repr

structure Toolset (F : Type) where
  workspace : Workspace F
  /-- `completed`: each id with the digest of its result. -/
  completed : List (ToolCallId × String) := []
  attemptNo : ℕ
  /-- `emitter.sequence`. -/
  sequence : ℕ := 0
  counter : ℕ := 0
  /-- The `TOOL_CALL` events of the attempt. -/
  events : List ToolEvent := []

namespace Toolset

variable {F : Type} (g : Git F) (t : Toolset F)

/-- The ids of the completed calls. -/
def keys : List ToolCallId := t.completed.map (·.1)

/-- `_next_id`. -/
def nextId : Toolset F × ToolCallId :=
  ({ t with counter := t.counter + 1 }, .generated t.attemptNo t.sequence (t.counter + 1))

/-- `tool_call_id or self._next_id()`. Only `apply_patch` is given the id of
the model. -/
def callId (c : ToolCall) : Toolset F × ToolCallId :=
  match c.request with
  | .applyPatch _ => if c.id = .issued "" then t.nextId else (t, c.id)
  | _ => t.nextId

/-- Emits `TOOL_CALL`, after the events the tool itself has emitted. -/
def emit (emitted : ℕ) (e : ToolEvent) : Toolset F :=
  { t with sequence := t.sequence + emitted + 1, events := t.events ++ [e] }

/-- The body of a tool: the work tree it leaves and its result, or what it
raises. -/
def impl (files : F) (output : String) (w : Workspace F) :
    ToolRequest → Except String (Workspace F × ToolContent)
  | .applyPatch patch =>
    if g.reverses w.files patch then .ok (w, .skipped)
    else match g.apply w.files patch with
      | none => .error "ToolExecutionError: 补丁不可应用"
      | some files' => .ok (w.edit files' (some patch), .applied)
  | .runCommand _ => .ok (w.edit files none, .output output)
  | _ => .ok (w, .output output)

/-- The work tree after a tool has raised: a command or `git apply` may have
been under way. -/
def raisedTree (files : F) (w : Workspace F) (request : ToolRequest) : Workspace F :=
  if request.sideEffecting then w.edit files none else w

/-- `_record`. The answer is `none` if the sandbox crashed. -/
def record (c : ToolCall) (x : ToolOutcome F) : Toolset F × Option ToolContent :=
  let (t, key) := t.callId c
  let event : ToolEvent := { call := c.id, toolCallId := key, tool := c.request.tool, cached := false }
  match t.completed.lookup key with
  | some digest =>
    (t.emit 0 { event with cached := true }, some (.cached c.request.tool digest))
  | none =>
    match x with
    | .crashed => (t.emit 0 { event with failed := true }, none)
    | .raised files error emitted =>
      (({ t with workspace := raisedTree files t.workspace c.request } : Toolset F).emit emitted
        { event with failed := true }, some (.error error))
    | .returned files output digest emitted =>
      match impl g files output t.workspace c.request with
      | .error error => (t.emit emitted { event with failed := true }, some (.error error))
      | .ok (workspace, result) =>
        (({ t with workspace, completed := t.completed ++ [(key, digest)] } : Toolset F).emit
          emitted event, some result)

/-- `SelfAgent._dispatch_tool`. -/
def dispatch (c : ToolCall) (x : ToolOutcome F) : Toolset F × Option ToolContent :=
  match c.request with
  | .invalid error => (t, some (.error error))
  | _ => t.record g c x

/-- How often a call was run, and not answered from the cache. -/
def executions (id : ToolCallId) : ℕ := t.events.countP fun e => e.call = id && !e.cached

/-! ## What one call does -/

section

variable {g t} {t' : Toolset F} {c : ToolCall} {x : ToolOutcome F} {content : ToolContent}

theorem callId_of_applyPatch {patch : String} (hc : c.request = .applyPatch patch)
    (hid : c.id ≠ .issued "") : t.callId c = (t, c.id) := by
  unfold callId
  rw [hc]
  exact if_neg hid

theorem callId_of_not_applyPatch (hc : ∀ patch, c.request ≠ .applyPatch patch) :
    t.callId c = t.nextId := by
  unfold callId
  split
  · rename_i patch hpatch
    exact absurd hpatch (hc patch)
  · rfl

/-- The id is the model's, or one of the attempt that was not given yet. -/
theorem callId_cases (t : Toolset F) (hid : c.id ≠ .issued "") :
    (t.callId c = (t, c.id) ∧ ∃ patch, c.request = .applyPatch patch) ∨
      (t.callId c = t.nextId ∧ ∀ patch, c.request ≠ .applyPatch patch) := by
  by_cases hc : ∃ patch, c.request = .applyPatch patch
  · obtain ⟨patch, hpatch⟩ := hc
    exact .inl ⟨callId_of_applyPatch hpatch hid, patch, hpatch⟩
  · have hnot : ∀ patch, c.request ≠ .applyPatch patch := fun patch h => hc ⟨patch, h⟩
    exact .inr ⟨callId_of_not_applyPatch hnot, hnot⟩

theorem mem_keys_of_lookup {key : ToolCallId} {digest : String}
    (h : t.completed.lookup key = some digest) : key ∈ t.keys := by
  unfold keys
  obtain ⟨front, back, heq, -⟩ := List.lookup_eq_some_iff.mp h
  rw [heq, List.map_append, List.map_cons]
  exact List.mem_append_right _ List.mem_cons_self

theorem not_mem_keys_of_lookup {key : ToolCallId} (h : t.completed.lookup key = none) :
    key ∉ t.keys := by
  intro hmem
  obtain ⟨entry, hentry, rfl⟩ := List.mem_map.mp hmem
  have hne := List.lookup_eq_none_iff.mp h entry hentry
  simp at hne

/-- What running a tool leaves: an edit at most, and of a patch that is
reported as applied, its effect. -/
theorem impl_ok {files : F} {output : String} {w w' : Workspace F} {request : ToolRequest}
    (h : impl g files output w request = .ok (w', content)) :
    w.Extends w' ∧ content.isError = false ∧ (∀ tool digest, content ≠ .cached tool digest) ∧
      ∀ patch, request = .applyPatch patch → w'.Contains g patch ∧ content.reportsApplied := by
  unfold impl at h
  split at h
  · split at h
    · rename_i patch hreverses
      obtain ⟨rfl, rfl⟩ := Prod.mk.inj (Except.ok.inj h)
      refine ⟨.refl w, rfl, by simp, ?_⟩
      rintro patch' hpatch
      obtain rfl := ToolRequest.applyPatch.inj hpatch
      exact ⟨Workspace.contains_of_reverses hreverses, rfl⟩
    · split at h
      · exact absurd h (by simp)
      · rename_i patch _ files' happly
        obtain ⟨rfl, rfl⟩ := Prod.mk.inj (Except.ok.inj h)
        refine ⟨Workspace.extends_edit w files' _, rfl, by simp, ?_⟩
        rintro patch' hpatch
        obtain rfl := ToolRequest.applyPatch.inj hpatch
        exact ⟨Workspace.contains_edit g w files' _, rfl⟩
  · obtain ⟨rfl, rfl⟩ := Prod.mk.inj (Except.ok.inj h)
    exact ⟨Workspace.extends_edit w files none, rfl, by simp, by simp⟩
  · rename_i hpatch _
    obtain ⟨rfl, rfl⟩ := Prod.mk.inj (Except.ok.inj h)
    exact ⟨.refl w, rfl, by simp, fun patch h => absurd h (hpatch patch)⟩

theorem extends_raisedTree (files : F) (w : Workspace F) (request : ToolRequest) :
    w.Extends (raisedTree files w request) := by
  unfold raisedTree
  split
  · exact Workspace.extends_edit w files none
  · exact .refl w

/-- **What an answered call does to the toolset.** It is answered from the
cache, or it was run: then it is kept as completed unless the answer is an
error. -/
inductive Answered (g : Git F) (t : Toolset F) (c : ToolCall) : Toolset F → ToolContent → Prop
  | invalid {error : String} (hc : c.request = .invalid error) : Answered g t c t (.error error)
  | cached {digest : String} (hkey : (t.callId c).2 ∈ t.keys) (hruns : c.request.runs) :
      Answered g t c ((t.callId c).1.emit 0 {
        call := c.id, toolCallId := (t.callId c).2, tool := c.request.tool, cached := true })
        (.cached c.request.tool digest)
  | failed {error : String} {emitted : ℕ} {workspace : Workspace F}
      (hkey : (t.callId c).2 ∉ t.keys) (hruns : c.request.runs)
      (htree : t.workspace.Extends workspace) :
      Answered g t c
        (({ (t.callId c).1 with workspace, completed := t.completed } : Toolset F).emit emitted {
          call := c.id, toolCallId := (t.callId c).2, tool := c.request.tool, cached := false
          failed := true }) (.error error)
  | ran {files : F} {output digest : String} {emitted : ℕ} {workspace : Workspace F}
      {result : ToolContent} (hkey : (t.callId c).2 ∉ t.keys) (hruns : c.request.runs)
      (himpl : impl g files output t.workspace c.request = .ok (workspace, result)) :
      Answered g t c (({ (t.callId c).1 with
          workspace, completed := t.completed ++ [((t.callId c).2, digest)] } : Toolset F).emit
        emitted { call := c.id, toolCallId := (t.callId c).2, tool := c.request.tool
                  cached := false }) result

@[simp] theorem callId_completed : (t.callId c).1.completed = t.completed := by
  unfold callId nextId
  split
  · split <;> rfl
  · rfl

@[simp] theorem callId_workspace : (t.callId c).1.workspace = t.workspace := by
  unfold callId nextId
  split
  · split <;> rfl
  · rfl

@[simp] theorem callId_attemptNo : (t.callId c).1.attemptNo = t.attemptNo := by
  unfold callId nextId
  split
  · split <;> rfl
  · rfl

@[simp] theorem callId_events : (t.callId c).1.events = t.events := by
  unfold callId nextId
  split
  · split <;> rfl
  · rfl

theorem callId_counter : t.counter ≤ (t.callId c).1.counter := by
  unfold callId nextId
  split
  · split
    · exact Nat.le_succ _
    · exact Nat.le_refl _
  · exact Nat.le_succ _

theorem answered_of_dispatch (h : t.dispatch g c x = (t', some content)) :
    Answered g t c t' content := by
  unfold dispatch at h
  split at h
  · rename_i error hc
    obtain ⟨rfl, hcontent⟩ := Prod.mk.inj h
    obtain rfl := Option.some.inj hcontent
    exact .invalid hc
  · rename_i hvalid
    have hruns : c.request.runs := by
      unfold ToolRequest.runs
      split
      · rename_i error hc
        exact absurd hc (hvalid error)
      · rfl
    simp only [record, callId_completed, callId_workspace] at h
    split at h
    · rename_i digest hlookup
      obtain ⟨rfl, hcontent⟩ := Prod.mk.inj h
      obtain rfl := Option.some.inj hcontent
      exact .cached (mem_keys_of_lookup hlookup) hruns
    · rename_i hlookup
      have hkey := not_mem_keys_of_lookup hlookup
      cases x with
      | crashed => simp at h
      | raised files error emitted =>
        obtain ⟨rfl, hcontent⟩ := Prod.mk.inj h
        obtain rfl := Option.some.inj hcontent
        exact .failed hkey hruns (extends_raisedTree files t.workspace c.request)
      | returned files output digest emitted =>
        cases himpl : impl g files output t.workspace c.request with
        | error error =>
          simp only [himpl] at h
          obtain ⟨rfl, hcontent⟩ := Prod.mk.inj h
          obtain rfl := Option.some.inj hcontent
          have hkept : Answered g t c (({ (t.callId c).1 with
              workspace := t.workspace, completed := t.completed } : Toolset F).emit emitted {
                call := c.id, toolCallId := (t.callId c).2, tool := c.request.tool, cached := false
                failed := true }) (.error error) := .failed hkey hruns (.refl t.workspace)
          rw [← callId_completed (t := t) (c := c), ← callId_workspace (t := t) (c := c)] at hkept
          exact hkept
        | ok r =>
          simp only [himpl] at h
          obtain ⟨rfl, hcontent⟩ := Prod.mk.inj h
          obtain rfl := Option.some.inj hcontent
          exact .ran hkey hruns himpl

namespace Answered

@[simp] theorem emit_workspace {emitted : ℕ} {e : ToolEvent} :
    (t.emit emitted e).workspace = t.workspace := rfl

variable (h : Answered g t c t' content)

include h

theorem extends_workspace : t.workspace.Extends t'.workspace := by
  cases h with
  | invalid => exact .refl _
  | cached =>
    rw [emit_workspace, callId_workspace]
    exact .refl _
  | failed hkey hruns htree => exact htree
  | ran hkey hruns himpl => exact (impl_ok himpl).1

theorem attemptNo : t'.attemptNo = t.attemptNo := by
  cases h with
  | invalid => rfl
  | _ => exact callId_attemptNo

theorem counter_le : t.counter ≤ t'.counter := by
  cases h with
  | invalid => exact Nat.le_refl _
  | _ => exact callId_counter

/-- What was completed stays completed. -/
theorem mem_keys {key : ToolCallId} (hkey : key ∈ t.keys) : key ∈ t'.keys := by
  cases h with
  | invalid => exact hkey
  | cached =>
    change key ∈ (t.callId c).1.completed.map (·.1)
    rw [callId_completed]
    exact hkey
  | failed => exact hkey
  | ran =>
    change key ∈ (t.completed ++ [_]).map Prod.fst
    rw [List.map_append]
    exact List.mem_append_left _ hkey

/-- Only the call's own id is added, once it was run: of a patch, with its
effect. -/
theorem of_mem_keys {key : ToolCallId} (hkey : key ∈ t'.keys) :
    key ∈ t.keys ∨ (key = (t.callId c).2 ∧ key ∉ t.keys ∧ content.isError = false ∧
      t'.counter = (t.callId c).1.counter ∧ ∀ patch, c.request = .applyPatch patch →
        t'.workspace.Contains g patch ∧ content.reportsApplied) := by
  cases h with
  | invalid => exact .inl hkey
  | cached =>
    change key ∈ (t.callId c).1.completed.map (·.1) at hkey
    rw [callId_completed] at hkey
    exact .inl hkey
  | failed => exact .inl hkey
  | ran hnew hruns himpl =>
    change key ∈ (t.completed ++ [_]).map Prod.fst at hkey
    rw [List.map_append, List.map_singleton] at hkey
    obtain ⟨-, herror, -, hcontains⟩ := impl_ok himpl
    rcases List.mem_append.mp hkey with hkey | hkey
    · exact .inl hkey
    · obtain rfl := List.mem_singleton.mp hkey
      exact .inr ⟨rfl, hnew, herror, rfl, hcontains⟩

/-- **A patch reported as applied was completed before, or is there.** -/
theorem reported {patch : String} (hc : c.request = .applyPatch patch) (hid : c.id ≠ .issued "")
    (hcontent : content.reportsApplied) :
    c.id ∈ t.keys ∨ (t'.workspace.Contains g patch ∧ c.id ∉ t.keys) := by
  have hcall := callId_of_applyPatch (t := t) hc hid
  cases h with
  | invalid => exact absurd hcontent (by simp [ToolContent.reportsApplied])
  | cached hkey =>
    rw [hcall] at hkey
    exact .inl hkey
  | failed => exact absurd hcontent (by simp [ToolContent.reportsApplied])
  | ran hkey _ himpl =>
    rw [hcall] at hkey
    exact .inr ⟨((impl_ok himpl).2.2.2 patch hc).1, hkey⟩

end Answered

/-- A call is answered unless the sandbox crashes. -/
theorem exists_answered (t : Toolset F) (hx : x.isCrash = false) :
    ∃ t' content, t.dispatch g c x = (t', some content) := by
  unfold dispatch
  split
  · exact ⟨_, _, rfl⟩
  · simp only [record]
    split
    · exact ⟨_, _, rfl⟩
    · split
      · exact absurd hx (by simp [ToolOutcome.isCrash])
      · exact ⟨_, _, rfl⟩
      · split
        · exact ⟨_, _, rfl⟩
        · exact ⟨_, _, rfl⟩

end

end Toolset

end Runtime

end AgentReliability
