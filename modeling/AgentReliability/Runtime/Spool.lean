import Mathlib.Data.List.AList
import Mathlib.Logic.Function.Basic
import AgentReliability.Common.Machine
/-!
# The evidence spool

`save_evidence` writes an attempt's evidence to a temporary file and
renames it over the attempt's file. `flush_evidence` reads every file of
the directory, posts it to the control plane and unlinks it. The workers
of one host share the directory, so a rename can fall anywhere between
another worker's read of a file and its unlink of that name.

A directory names inodes, and an inode has a text. A rename puts another
inode under the name; a worker that has read a file keeps what it read.
-/

namespace AgentReliability

namespace Runtime

/-- What `save_evidence` dumps. -/
structure Evidence (Report : Type) where
  attemptId : String
  patch : String
  report : Report
  deriving DecidableEq, Repr

/-- `attempt_id.replace('-', '').replace('_', '').isalnum()`. -/
def validAttemptId (isalnum : Char → Bool) (attemptId : String) : Bool :=
  let rest := attemptId.toList.filter fun c => c ≠ '-' ∧ c ≠ '_'
  rest ≠ [] && rest.all isalnum

/-! ## The directory and the processes -/

/-- A file of the spool as `flush_evidence` read it. -/
structure Copy (Report : Type) where
  name : String
  inode : ℕ
  payload : Evidence Report
  deriving DecidableEq, Repr

/-- Where a process stands. -/
inductive SpoolStage (Report : Type) where
  /-- In neither function. -/
  | idle
  /-- In `save_evidence`, with the temporary file open and empty. -/
  | opened (inode : ℕ) (e : Evidence Report)
  /-- In `save_evidence`, with the temporary file synced. -/
  | synced (inode : ℕ) (e : Evidence Report)
  /-- In `flush_evidence`, at the head of its loop. -/
  | scanning (names : List String)
  /-- In `flush_evidence`, before the response to the POST. -/
  | posting (copy : Copy Report) (names : List String)
  /-- In `flush_evidence`, before the unlink. -/
  | posted (copy : Copy Report) (names : List String)
  | dead
  deriving DecidableEq, Repr

structure SpoolState (Report : Type) where
  /-- The directory's `*.json`, by attempt. -/
  files : AList (fun _ : String => ℕ) := ∅
  /-- The directory's `*.tmp`, by attempt. -/
  temporaries : AList (fun _ : String => ℕ) := ∅
  /-- The text of an inode, once all of it is written. -/
  texts : ℕ → Option (Evidence Report) := fun _ => none
  nextInode : ℕ := 0
  stages : ℕ → SpoolStage Report := fun _ => .idle
  /-- What the control plane accepted. -/
  accepted : List (Evidence Report) := []
  /-- What each attempt saved last. -/
  saved : AList (fun _ : String => Evidence Report) := ∅
  /-- The texts of the files that were removed. -/
  removed : List (Option (Evidence Report)) := []

inductive PostOutcome where
  | accepted
  /-- The control plane has it, and its response is lost. -/
  | lost
  | failed
  deriving DecidableEq, Repr

inductive SpoolEvent (Report : Type) where
  /-- `save_evidence` is called, and opens the temporary file. -/
  | save (p : ℕ) (e : Evidence Report)
  | write (p : ℕ)
  | replace (p : ℕ)
  /-- `flush_evidence` is called, and lists the directory. -/
  | scan (p : ℕ) (names : List String)
  /-- It goes on to the next file, or is done. -/
  | next (p : ℕ)
  | post (p : ℕ) (outcome : PostOutcome)
  | unlink (p : ℕ)
  /-- What the process is about to do raises. -/
  | raise (p : ℕ)
  | die (p : ℕ)
  deriving DecidableEq, Repr

namespace SpoolState

variable {Report : Type} (s : SpoolState Report)

def goTo (p : ℕ) (stage : SpoolStage Report) : SpoolState Report :=
  { s with stages := Function.update s.stages p stage }

@[simp] theorem goTo_stages_self (p : ℕ) (stage : SpoolStage Report) :
    (s.goTo p stage).stages p = stage := by simp [goTo]

theorem goTo_stages_of_ne {p q : ℕ} (h : q ≠ p) (stage : SpoolStage Report) :
    (s.goTo p stage).stages q = s.stages q := by simp [goTo, h]

/-- `temporary.open('w')`: the file is emptied, or made. -/
def openTemporary (name : String) : ℕ × SpoolState Report :=
  match s.temporaries.lookup name with
  | some i => (i, { s with texts := Function.update s.texts i none })
  | none => (s.nextInode, { s with
      temporaries := s.temporaries.insert name s.nextInode
      texts := Function.update s.texts s.nextInode none
      nextInode := s.nextInode + 1 })

/-- `temporary.replace(path)`, and `save_evidence` returns. -/
def replace (p : ℕ) (e : Evidence Report) : SpoolState Report :=
  match s.temporaries.lookup e.attemptId with
  | some i => { s with
      files := s.files.insert e.attemptId i
      temporaries := s.temporaries.erase e.attemptId
      saved := s.saved.insert e.attemptId e }.goTo p .idle
  | none => s.goTo p .idle

/-- `json.loads(path.read_text())`. A file that is gone, or is not JSON,
raises. -/
def read (name : String) : Option (Copy Report) := do
  let inode ← s.files.lookup name
  let payload ← s.texts inode
  pure { name, inode, payload }

/-- `path.unlink()`. A file that is gone raises. -/
def unlink (p : ℕ) (name : String) (names : List String) : SpoolState Report :=
  match s.files.lookup name with
  | some i => { s with
      files := s.files.erase name
      removed := s.removed ++ [s.texts i] }.goTo p (.scanning names)
  | none => s.goTo p .idle

/-- The response to a POST. -/
def answer (p : ℕ) (copy : Copy Report) (names : List String) : PostOutcome → SpoolState Report
  | .accepted => { s with accepted := s.accepted ++ [copy.payload] }.goTo p (.posted copy names)
  | .lost => { s with accepted := s.accepted ++ [copy.payload] }.goTo p .idle
  | .failed => s.goTo p .idle

end SpoolState

section Spool

variable {Report : Type} (isalnum : Char → Bool) (owner : String → ℕ)

/-- An attempt's evidence is saved by the process that claimed the attempt.
A process saves and flushes by turns. -/
def spoolStep (s : SpoolState Report) : SpoolEvent Report → SpoolState Report
  | .save p e =>
    match s.stages p with
    | .idle =>
      if owner e.attemptId = p ∧ validAttemptId isalnum e.attemptId then
        let (i, s) := s.openTemporary e.attemptId
        s.goTo p (.opened i e)
      else s
    | _ => s
  | .write p =>
    match s.stages p with
    | .opened i e => { s with texts := Function.update s.texts i (some e) }.goTo p (.synced i e)
    | _ => s
  | .replace p =>
    match s.stages p with
    | .synced _ e => s.replace p e
    | _ => s
  | .scan p names =>
    match s.stages p with
    | .idle =>
      -- the order in which a directory is listed is not specified
      if names.Perm s.files.keys then s.goTo p (.scanning names) else s
    | _ => s
  | .next p =>
    match s.stages p with
    | .scanning (name :: names) =>
      match s.read name with
      | some copy => s.goTo p (.posting copy names)
      | none => s.goTo p .idle
    | .scanning [] => s.goTo p .idle
    | _ => s
  | .post p outcome =>
    match s.stages p with
    | .posting copy names => s.answer p copy names outcome
    | _ => s
  | .unlink p =>
    match s.stages p with
    | .posted copy names => s.unlink p copy.name names
    | _ => s
  | .raise p =>
    match s.stages p with
    | .dead => s
    | _ => s.goTo p .idle
  | .die p => s.goTo p .dead

/-- The processes of a host on their spool. -/
def spool : Machine (SpoolState Report) (SpoolEvent Report) where
  init := {}
  step := spoolStep isalnum owner


/-! ## What a spool owes -/

/-- Evidence saved last is in the spool or was accepted, and what was
removed was accepted. -/
structure Lossless (s : SpoolState Report) : Prop where
  saved : ∀ name e, s.saved.lookup name = some e →
    (∃ i, s.files.lookup name = some i ∧ s.texts i = some e) ∨ e ∈ s.accepted
  removed : ∀ text ∈ s.removed, ∃ e ∈ s.accepted, text = some e

/-- The file an unlink removes is the file that was read: no save of the
attempt has replaced it since. -/
def Unreplaced (s : SpoolState Report) : SpoolEvent Report → Prop
  | .unlink p =>
    match s.stages p with
    | .posted copy _ => ∀ i, s.files.lookup copy.name = some i → i = copy.inode
    | _ => True
  | _ => True

/-! ## The invariant -/

/-- An inode whose text is whole, and that no temporary file names: nothing
writes to it again. -/
structure Published (s : SpoolState Report) (i : ℕ) (e : Evidence Report) : Prop where
  old : i < s.nextInode
  text : s.texts i = some e
  named : ∀ name, s.temporaries.lookup name ≠ some i

/-- What a process holds at its stage. -/
def StageInv (s : SpoolState Report) (p : ℕ) : SpoolStage Report → Prop
  | .opened i e => owner e.attemptId = p ∧ s.temporaries.lookup e.attemptId = some i
  | .synced i e =>
    owner e.attemptId = p ∧ s.temporaries.lookup e.attemptId = some i ∧ s.texts i = some e
  | .posting copy _ => Published s copy.inode copy.payload
  | .posted copy _ => Published s copy.inode copy.payload ∧ copy.payload ∈ s.accepted
  | _ => True

structure SpoolInv (s : SpoolState Report) : Prop where
  fresh : ∀ name i, s.temporaries.lookup name = some i → i < s.nextInode
  distinct : ∀ name name' i, s.temporaries.lookup name = some i →
    s.temporaries.lookup name' = some i → name = name'
  /-- A file of the spool is never half written. -/
  whole : ∀ name i, s.files.lookup name = some i → ∃ e, Published s i e
  stages : ∀ p, StageInv owner s p (s.stages p)

variable {owner} {s s' : SpoolState Report} {p : ℕ}

/-- What a step of `p` owes the other processes: what is published stays so,
and a temporary file of theirs keeps its inode and its text. -/
theorem StageInv.mono {q : ℕ} {stage : SpoolStage Report} (h : StageInv owner s q stage)
    (hpublished : ∀ i e, Published s i e → Published s' i e) (haccepted : s.accepted ⊆ s'.accepted)
    (htemp : ∀ name i, owner name = q → s.temporaries.lookup name = some i →
      s'.temporaries.lookup name = some i ∧ s'.texts i = s.texts i) : StageInv owner s' q stage := by
  cases stage with
  | opened i e => exact ⟨h.1, (htemp _ _ h.1 h.2).1⟩
  | synced i e =>
    obtain ⟨hown, hlookup, htext⟩ := h
    obtain ⟨hlookup', htext'⟩ := htemp _ _ hown hlookup
    exact ⟨hown, hlookup', htext'.trans htext⟩
  | posting copy names => exact hpublished _ _ h
  | posted copy names => exact ⟨hpublished _ _ h.1, haccepted h.2⟩
  | _ => trivial

theorem Published.goTo {i : ℕ} {e : Evidence Report} {stage : SpoolStage Report} (h : Published s i e) :
    Published (s.goTo p stage) i e := ⟨h.old, h.text, h.named⟩

/-- **The rule of a step.** `s'` is what `p` made of the directory. -/
theorem SpoolInv.goTo {stage : SpoolStage Report}
    (hfresh : ∀ name i, s'.temporaries.lookup name = some i → i < s'.nextInode)
    (hdistinct : ∀ name name' i, s'.temporaries.lookup name = some i →
      s'.temporaries.lookup name' = some i → name = name')
    (hwhole : ∀ name i, s'.files.lookup name = some i → ∃ e, Published s' i e)
    (hothers : ∀ q, q ≠ p → StageInv owner s' q (s'.stages q))
    (hstage : StageInv owner s' p stage) : SpoolInv owner (s'.goTo p stage) where
  fresh := hfresh
  distinct := hdistinct
  whole := fun name i hi => (hwhole name i hi).imp fun _ he => he.goTo
  stages := fun q => by
    have hkeep : ∀ {st}, StageInv owner s' q st → StageInv owner (s'.goTo p stage) q st :=
      fun h => h.mono (fun _ _ => Published.goTo) (List.Subset.refl _) fun _ _ _ hi => ⟨hi, rfl⟩
    by_cases hq : q = p
    · subst hq
      rw [SpoolState.goTo_stages_self]
      exact hkeep hstage
    · rw [SpoolState.goTo_stages_of_ne _ hq]
      exact hkeep (hothers q hq)

/-- A step that only moves the process on. -/
theorem SpoolInv.move {stage : SpoolStage Report} (h : SpoolInv owner s)
    (hstage : StageInv owner s p stage) : SpoolInv owner (s.goTo p stage) :=
  .goTo h.fresh h.distinct h.whole (fun q _ => h.stages q) hstage

theorem SpoolInv.init : SpoolInv owner ({} : SpoolState Report) where
  fresh := by simp
  distinct := by simp
  whole := by simp
  stages := fun _ => trivial

theorem lookup_openTemporary (name : String) :
    (s.openTemporary name).2.temporaries.lookup name = some (s.openTemporary name).1 := by
  unfold SpoolState.openTemporary
  split
  · assumption
  · exact AList.lookup_insert _

/-- A temporary file of another attempt is left alone. -/
theorem openTemporary_of_ne {name name' : String} {i : ℕ} (h : SpoolInv owner s)
    (hne : name' ≠ name) :
    ((s.openTemporary name).2.temporaries.lookup name' = some i ↔
      s.temporaries.lookup name' = some i) ∧
    (s.temporaries.lookup name' = some i →
      (s.openTemporary name).2.texts i = s.texts i ∧ i ≠ (s.openTemporary name).1) := by
  unfold SpoolState.openTemporary
  split
  · rename_i j hj
    refine ⟨Iff.rfl, fun hi => ?_⟩
    have hij : i ≠ j := fun hij => hne (h.distinct _ _ i hi (hij ▸ hj))
    exact ⟨Function.update_of_ne hij _ _, hij⟩
  · refine ⟨by rw [AList.lookup_insert_ne hne], fun hi => ?_⟩
    have hij : i ≠ s.nextInode := by have := h.fresh _ _ hi; omega
    exact ⟨Function.update_of_ne hij _ _, hij⟩

theorem Published.openTemporary {name : String} {i : ℕ} {e : Evidence Report} (h : Published s i e) :
    Published (s.openTemporary name).2 i e := by
  have hold := h.old
  unfold SpoolState.openTemporary
  split
  · rename_i j hj
    have hij : i ≠ j := fun hij => h.named name (hij ▸ hj)
    exact ⟨hold, (Function.update_of_ne hij _ _).trans h.text, h.named⟩
  · have hij : i ≠ s.nextInode := by omega
    refine ⟨?_, (Function.update_of_ne hij _ _).trans h.text, fun name' => ?_⟩
    · show i < s.nextInode + 1
      omega
    · by_cases hne : name' = name
      · subst hne
        rw [AList.lookup_insert]
        simpa using Ne.symm hij
      · rw [AList.lookup_insert_ne hne]
        exact h.named name'

theorem SpoolInv.open {e : Evidence Report} (h : SpoolInv owner s) (hown : owner e.attemptId = p) :
    SpoolInv owner ((s.openTemporary e.attemptId).2.goTo p
      (.opened (s.openTemporary e.attemptId).1 e)) := by
  have hfresh : (s.openTemporary e.attemptId).1 < (s.openTemporary e.attemptId).2.nextInode ∧
      s.nextInode ≤ (s.openTemporary e.attemptId).2.nextInode := by
    unfold SpoolState.openTemporary
    split
    · rename_i j hj
      exact ⟨h.fresh _ _ hj, le_refl _⟩
    · exact ⟨Nat.lt_succ_self _, Nat.le_succ _⟩
  have hfiles : (s.openTemporary e.attemptId).2.files = s.files := by
    unfold SpoolState.openTemporary; split <;> rfl
  have hstages : (s.openTemporary e.attemptId).2.stages = s.stages := by
    unfold SpoolState.openTemporary; split <;> rfl
  have haccepted : (s.openTemporary e.attemptId).2.accepted = s.accepted := by
    unfold SpoolState.openTemporary; split <;> rfl
  refine .goTo ?_ ?_ ?_ ?_ ⟨hown, lookup_openTemporary _⟩
  · intro name i hi
    by_cases hne : name = e.attemptId
    · subst hne
      rw [lookup_openTemporary] at hi
      cases hi
      exact hfresh.1
    · have := h.fresh _ _ ((openTemporary_of_ne h hne).1.mp hi)
      omega
  · intro name name' i hi hi'
    by_cases hne : name = e.attemptId <;> by_cases hne' : name' = e.attemptId
    · rw [hne, hne']
    · subst hne
      rw [lookup_openTemporary] at hi
      cases hi
      obtain ⟨hiff, hapart⟩ := openTemporary_of_ne h hne'
      exact absurd rfl (hapart (hiff.mp hi')).2
    · subst hne'
      rw [lookup_openTemporary] at hi'
      cases hi'
      obtain ⟨hiff, hapart⟩ := openTemporary_of_ne h hne
      exact absurd rfl (hapart (hiff.mp hi)).2
    · exact h.distinct _ _ i ((openTemporary_of_ne h hne).1.mp hi)
        ((openTemporary_of_ne h hne').1.mp hi')
  · intro name i hi
    rw [hfiles] at hi
    obtain ⟨e', he'⟩ := h.whole name i hi
    exact ⟨e', he'.openTemporary⟩
  · intro q hq
    rw [hstages]
    refine (h.stages q).mono (fun _ _ => Published.openTemporary) ?_ fun name i hname hi => ?_
    · rw [haccepted]
      exact List.Subset.refl _
    · have hne : name ≠ e.attemptId := fun hne => hq (by rw [← hname, hne, hown])
      obtain ⟨hiff, hapart⟩ := openTemporary_of_ne h hne
      exact ⟨hiff.mpr hi, (hapart hi).1⟩

/-- The whole text reaches the disk. -/
theorem SpoolInv.write {i : ℕ} {e : Evidence Report} (h : SpoolInv owner s)
    (hstage : StageInv owner s p (.opened i e)) :
    SpoolInv owner ({ s with texts := Function.update s.texts i (some e) }.goTo p
      (.synced i e)) := by
  obtain ⟨hown, hlookup⟩ := hstage
  have hpublished : ∀ j e', Published s j e' →
      Published { s with texts := Function.update s.texts i (some e) } j e' := by
    intro j e' hj
    have hij : j ≠ i := fun hij => hj.named _ (hij ▸ hlookup)
    exact ⟨hj.old, (Function.update_of_ne hij _ _).trans hj.text, hj.named⟩
  refine .goTo h.fresh h.distinct ?_ ?_ ⟨hown, hlookup, Function.update_self _ _ _⟩
  · exact fun name j hj => (h.whole name j hj).imp fun e' he' => hpublished j e' he'
  · intro q hq
    refine (h.stages q).mono hpublished (List.Subset.refl _) fun name j hname hj => ⟨hj, ?_⟩
    have hij : j ≠ i := by
      intro hij
      have hsame : name = e.attemptId := h.distinct _ _ j hj (hij ▸ hlookup)
      exact hq (by rw [← hname, hsame, hown])
    exact Function.update_of_ne hij _ _

/-- **A rename publishes the inode it moves**: no other temporary file has
it. -/
theorem SpoolInv.replace {i : ℕ} {e : Evidence Report} (h : SpoolInv owner s)
    (hstage : StageInv owner s p (.synced i e)) : SpoolInv owner (s.replace p e) := by
  obtain ⟨hown, hlookup, htext⟩ := hstage
  unfold SpoolState.replace
  rw [hlookup]
  have herase : ∀ {name j}, (s.temporaries.erase e.attemptId).lookup name = some j →
      name ≠ e.attemptId ∧ s.temporaries.lookup name = some j := by
    intro name j hj
    by_cases hne : name = e.attemptId
    · subst hne
      rw [AList.lookup_erase] at hj
      cases hj
    · exact ⟨hne, by rwa [AList.lookup_erase_ne hne] at hj⟩
  have hpublished : ∀ j e', Published s j e' → Published { s with
      files := s.files.insert e.attemptId i
      temporaries := s.temporaries.erase e.attemptId
      saved := s.saved.insert e.attemptId e } j e' :=
    fun j e' hj => ⟨hj.old, hj.text, fun name hname => hj.named name (herase hname).2⟩
  refine .goTo ?_ ?_ ?_ ?_ trivial
  · exact fun name j hj => h.fresh name j (herase hj).2
  · exact fun name name' j hj hj' => h.distinct _ _ j (herase hj).2 (herase hj').2
  · intro name j hj
    by_cases hne : name = e.attemptId
    · subst hne
      rw [AList.lookup_insert] at hj
      cases hj
      refine ⟨e, h.fresh _ _ hlookup, htext, fun name' hname' => ?_⟩
      exact (herase hname').1 (h.distinct _ _ i (herase hname').2 hlookup)
    · rw [AList.lookup_insert_ne hne] at hj
      exact (h.whole name j hj).imp (hpublished j)
  · intro q hq
    refine (h.stages q).mono hpublished (List.Subset.refl _) fun name j hname hj => ⟨?_, rfl⟩
    have hne : name ≠ e.attemptId := fun hne => hq (by rw [← hname, hne, hown])
    rwa [AList.lookup_erase_ne hne]

theorem read_eq_some {name : String} {copy : Copy Report} (h : s.read name = some copy) :
    copy.name = name ∧ s.files.lookup name = some copy.inode ∧
      s.texts copy.inode = some copy.payload := by
  simp only [SpoolState.read, Option.bind_eq_bind, Option.bind_eq_some_iff, Option.pure_def,
    Option.some.injEq] at h
  obtain ⟨i, hi, e, he, rfl⟩ := h
  exact ⟨rfl, hi, he⟩

/-- What was read is published. -/
theorem SpoolInv.published_of_read {name : String} {copy : Copy Report} (h : SpoolInv owner s)
    (hread : s.read name = some copy) : Published s copy.inode copy.payload := by
  obtain ⟨-, hfile, htext⟩ := read_eq_some hread
  obtain ⟨e, he⟩ := h.whole name copy.inode hfile
  have hpayload : e = copy.payload := by
    have := he.text.symm.trans htext
    simpa using this
  exact hpayload ▸ he

theorem SpoolInv.answer {copy : Copy Report} {names : List String} (h : SpoolInv owner s)
    (hcopy : Published s copy.inode copy.payload) (outcome : PostOutcome) :
    SpoolInv owner (s.answer p copy names outcome) := by
  have hkeep : ∀ j e, Published s j e →
      Published { s with accepted := s.accepted ++ [copy.payload] } j e :=
    fun j e hj => ⟨hj.old, hj.text, hj.named⟩
  have hmore : s.accepted ⊆ s.accepted ++ [copy.payload] := List.subset_append_left _ _
  have haccept : SpoolInv owner { s with accepted := s.accepted ++ [copy.payload] } := {
    fresh := h.fresh
    distinct := h.distinct
    whole := fun name i hi => (h.whole name i hi).imp (hkeep i)
    stages := fun q => (h.stages q).mono hkeep hmore fun _ _ _ hi => ⟨hi, rfl⟩ }
  cases outcome with
  | accepted => exact haccept.move ⟨hkeep _ _ hcopy, by simp⟩
  | lost => exact haccept.move trivial
  | failed => exact h.move trivial

theorem SpoolInv.unlink {name : String} {names : List String} (h : SpoolInv owner s) :
    SpoolInv owner (s.unlink p name names) := by
  unfold SpoolState.unlink
  split
  · rename_i i hi
    have hkeep : ∀ j e, Published s j e → Published { s with
        files := s.files.erase name
        removed := s.removed ++ [s.texts i] } j e := fun j e hj => ⟨hj.old, hj.text, hj.named⟩
    refine .goTo h.fresh h.distinct ?_ ?_ trivial
    · intro name' j hj
      by_cases hne : name' = name
      · subst hne
        rw [AList.lookup_erase] at hj
        cases hj
      · rw [AList.lookup_erase_ne hne] at hj
        exact (h.whole name' j hj).imp (hkeep j)
    · exact fun q _ => (h.stages q).mono hkeep (List.Subset.refl _) fun _ _ _ hi => ⟨hi, rfl⟩
  · exact h.move trivial

theorem SpoolInv.step (h : SpoolInv owner s) (e : SpoolEvent Report) :
    SpoolInv owner (spoolStep isalnum owner s e) := by
  cases e with
  | save p e =>
    simp only [spoolStep]
    split
    · split
      · rename_i hcheck
        exact h.open hcheck.1
      · exact h
    · exact h
  | write p =>
    have hp := h.stages p
    simp only [spoolStep]
    split
    · rename_i i e hat
      rw [hat] at hp
      exact h.write hp
    · exact h
  | replace p =>
    have hp := h.stages p
    simp only [spoolStep]
    split
    · rename_i i e hat
      rw [hat] at hp
      exact h.replace hp
    · exact h
  | scan p names =>
    simp only [spoolStep]
    split
    · split
      · exact h.move trivial
      · exact h
    · exact h
  | next p =>
    simp only [spoolStep]
    split
    · split
      · rename_i hread
        exact h.move (h.published_of_read hread)
      · exact h.move trivial
    · exact h.move trivial
    · exact h
  | post p outcome =>
    have hp := h.stages p
    simp only [spoolStep]
    split
    · rename_i copy names hat
      rw [hat] at hp
      exact h.answer hp outcome
    · exact h
  | unlink p =>
    simp only [spoolStep]
    split
    · exact h.unlink
    · exact h
  | raise p =>
    simp only [spoolStep]
    split
    · exact h
    · exact h.move trivial
  | die p => exact h.move trivial

/-! ## Nothing is lost -/

/-- A step that neither saves nor removes. -/
theorem Lossless.keep (h : Lossless s) (hinv : SpoolInv owner s) (hfiles : s'.files = s.files)
    (hsaved : s'.saved = s.saved) (hremoved : s'.removed = s.removed)
    (haccepted : s.accepted ⊆ s'.accepted) (hpublished : ∀ i e, Published s i e → Published s' i e) :
    Lossless s' where
  saved := fun name e hsave => by
    rw [hsaved] at hsave
    obtain ⟨i, hi, htext⟩ | hacc := h.saved name e hsave
    · obtain ⟨e', he'⟩ := hinv.whole name i hi
      have heq : e' = e := by
        have := he'.text.symm.trans htext
        simpa using this
      subst heq
      exact .inl ⟨i, by rw [hfiles]; exact hi, (hpublished i e' he').text⟩
    · exact .inr (haccepted hacc)
  removed := fun text htext => by
    rw [hremoved] at htext
    obtain ⟨e, he, rfl⟩ := h.removed text htext
    exact ⟨e, haccepted he, rfl⟩

theorem Lossless.move {stage : SpoolStage Report} (h : Lossless s) : Lossless (s.goTo p stage) :=
  ⟨h.saved, h.removed⟩

theorem Lossless.open {name : String} {stage : SpoolStage Report} (h : Lossless s)
    (hinv : SpoolInv owner s) : Lossless ((s.openTemporary name).2.goTo p stage) := by
  refine Lossless.move (h.keep hinv ?_ ?_ ?_ ?_ fun _ _ => Published.openTemporary)
  all_goals unfold SpoolState.openTemporary; split
  all_goals first | rfl | exact List.Subset.refl _

theorem Lossless.write {i : ℕ} {e : Evidence Report} {stage : SpoolStage Report} (h : Lossless s)
    (hinv : SpoolInv owner s) (hlookup : s.temporaries.lookup e.attemptId = some i) :
    Lossless ({ s with texts := Function.update s.texts i (some e) }.goTo p stage) := by
  refine Lossless.move (h.keep hinv rfl rfl rfl (List.Subset.refl _) fun j e' hj => ?_)
  have hij : j ≠ i := fun hij => hj.named _ (hij ▸ hlookup)
  exact ⟨hj.old, (Function.update_of_ne hij _ _).trans hj.text, hj.named⟩

/-- A save puts its evidence in the spool. -/
theorem Lossless.replace {i : ℕ} {e : Evidence Report} (h : Lossless s)
    (hstage : StageInv owner s p (.synced i e)) : Lossless (s.replace p e) := by
  obtain ⟨-, hlookup, htext⟩ := hstage
  unfold SpoolState.replace
  rw [hlookup]
  refine Lossless.move ⟨fun name e' hsave => ?_, h.removed⟩
  by_cases hne : name = e.attemptId
  · subst hne
    rw [AList.lookup_insert] at hsave
    cases hsave
    exact .inl ⟨i, AList.lookup_insert _, htext⟩
  · rw [AList.lookup_insert_ne hne] at hsave
    refine (h.saved name e' hsave).imp_left fun ⟨j, hj, hjtext⟩ => ⟨j, ?_, hjtext⟩
    rwa [AList.lookup_insert_ne hne]

theorem Lossless.answer {copy : Copy Report} {names : List String} (h : Lossless s)
    (hinv : SpoolInv owner s) (outcome : PostOutcome) :
    Lossless (s.answer p copy names outcome) := by
  have haccept : Lossless { s with accepted := s.accepted ++ [copy.payload] } :=
    h.keep hinv rfl rfl rfl (List.subset_append_left _ _) fun j e hj => ⟨hj.old, hj.text, hj.named⟩
  cases outcome with
  | accepted => exact haccept.move
  | lost => exact haccept.move
  | failed => exact h.move

/-- **The unlink of the file that was read** removes what was posted. -/
theorem Lossless.unlink {copy : Copy Report} {names : List String} (h : Lossless s)
    (hstage : StageInv owner s p (.posted copy names))
    (hsame : ∀ i, s.files.lookup copy.name = some i → i = copy.inode) :
    Lossless (s.unlink p copy.name names) := by
  obtain ⟨hcopy, haccepted⟩ := hstage
  unfold SpoolState.unlink
  split
  · rename_i i hi
    have htext : s.texts i = some copy.payload := by rw [hsame i hi]; exact hcopy.text
    refine Lossless.move ⟨fun name e hsave => ?_, fun text hmem => ?_⟩
    · obtain ⟨j, hj, hjtext⟩ | hacc := h.saved name e hsave
      · by_cases hne : name = copy.name
        · -- the file that goes: its text is what the control plane has
          subst hne
          have hij : j = i := by simpa using hj.symm.trans hi
          have he : e = copy.payload := by
            rw [hij, htext] at hjtext
            simpa using hjtext.symm
          exact .inr (he ▸ haccepted)
        · exact .inl ⟨j, by rwa [AList.lookup_erase_ne hne], hjtext⟩
      · exact .inr hacc
    · obtain hmem | hmem := List.mem_append.mp hmem
      · exact h.removed text hmem
      · have hremoved : text = s.texts i := by simpa using hmem
        exact ⟨copy.payload, haccepted, hremoved.trans htext⟩
  · exact h.move

/-- **One step loses nothing**, if what it unlinks is what it read. -/
theorem Lossless.step (h : Lossless s) (hinv : SpoolInv owner s) (e : SpoolEvent Report)
    (hsame : Unreplaced s e) : Lossless (spoolStep isalnum owner s e) := by
  cases e with
  | save p e =>
    simp only [spoolStep]
    split
    · split
      · exact h.open hinv
      · exact h
    · exact h
  | write p =>
    have hp := hinv.stages p
    simp only [spoolStep]
    split
    · rename_i i e hat
      rw [hat] at hp
      exact h.write hinv hp.2
    · exact h
  | replace p =>
    have hp := hinv.stages p
    simp only [spoolStep]
    split
    · rename_i i e hat
      rw [hat] at hp
      exact h.replace hp
    · exact h
  | scan p names =>
    simp only [spoolStep]
    split
    · split
      · exact h.move
      · exact h
    · exact h
  | next p =>
    simp only [spoolStep]
    split
    · split
      · exact h.move
      · exact h.move
    · exact h.move
    · exact h
  | post p outcome =>
    simp only [spoolStep]
    split
    · exact h.answer hinv outcome
    · exact h
  | unlink p =>
    have hp := hinv.stages p
    simp only [spoolStep]
    split
    · rename_i copy names hat
      rw [hat] at hp
      simp only [Unreplaced, hat] at hsame
      exact h.unlink hp hsame
    · exact h
  | raise p =>
    simp only [spoolStep]
    split
    · exact h
    · exact h.move
  | die p => exact h.move

/-- **Where no file is replaced between its read and its unlink, evidence
is never lost**, whatever fails and whichever process dies. -/
theorem lossless_of_unreplaced {es : List (SpoolEvent Report)}
    (h : (spool isalnum owner).Admits Unreplaced {} es) :
    Lossless ((spool isalnum owner).run es) := by
  have hrun := (spool isalnum owner).runFrom_of_admits
    (P := fun s => SpoolInv owner s ∧ Lossless s) (s := {})
    (fun s e hs hsame => ⟨hs.1.step isalnum e, hs.2.step isalnum hs.1 e hsame⟩)
    ⟨SpoolInv.init, ⟨by simp, by simp⟩⟩ h
  exact hrun.2

end Spool

/-! ## A run that loses evidence -/

/-- Worker 1 has the attempt. -/
def loneOwner : String → ℕ := fun _ => 1

def checkpointEvidence : Evidence String := ⟨"a-1", "", "checkpoint"⟩

def finalEvidence : Evidence String := ⟨"a-1", "diff", "SUCCEEDED"⟩

def saveBy (p : ℕ) (e : Evidence String) : List (SpoolEvent String) :=
  [.save p e, .write p, .replace p]

def flushBy (p : ℕ) (names : List String) : List (SpoolEvent String) :=
  [.scan p names, .next p, .post p .accepted, .unlink p, .next p]

theorem lossless_flushed : Lossless ((spool Char.isAlphanum loneOwner).run
    (saveBy 1 checkpointEvidence ++ flushBy 2 ["a-1"] ++ saveBy 1 finalEvidence)) :=
  lossless_of_unreplaced Char.isAlphanum
    ⟨trivial, trivial, trivial, trivial, trivial, trivial, fun _ hi => (Option.some.inj hi).symm,
      trivial, trivial, trivial, trivial, trivial⟩

/-- **The final evidence is saved while worker 2 posts the checkpoint's**:
worker 2 unlinks the name, and the final evidence is nowhere. -/
theorem not_lossless_of_replaced : ¬ ∀ es : List (SpoolEvent String),
    Lossless ((spool Char.isAlphanum loneOwner).run es) := by
  intro h
  have hrun := (h (saveBy 1 checkpointEvidence ++ [.scan 2 ["a-1"], .next 2] ++
    saveBy 1 finalEvidence ++ [.post 2 .accepted, .unlink 2])).removed (some finalEvidence)
    (by decide)
  exact absurd hrun (by decide)

end Runtime

end AgentReliability
