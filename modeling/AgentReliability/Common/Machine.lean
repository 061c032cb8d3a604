import Mathlib.Data.List.Basic
/-!
# Deterministic machines and their runs

A machine takes one event at a time. Every interleaving of the parties
feeding it is a list of events, so a statement over all event lists is a
statement over all schedules. The file carries the three induction rules
the development runs on: an invariant of the reachable states, a property
that survives every continuation once it holds, and an invariant of the
runs whose steps all meet a condition.
-/

namespace AgentReliability

/-- **A machine given by its initial state and its step.** The step is
total: an event that is not possible in a state leaves it as it is. -/
structure Machine (σ ε : Type*) where
  init : σ
  step : σ → ε → σ

namespace Machine

variable {σ ε : Type*} (M : Machine σ ε)

/-- The state reached from `s` by a list of events, in order. -/
def runFrom (s : σ) (es : List ε) : σ := es.foldl M.step s

/-- The state reached from the initial one. -/
def run (es : List ε) : σ := M.runFrom M.init es

/-- A state some run reaches. -/
def Reachable (s : σ) : Prop := ∃ es, M.run es = s

@[simp] theorem runFrom_nil (s : σ) : M.runFrom s [] = s := rfl

@[simp] theorem runFrom_cons (s : σ) (e : ε) (es : List ε) :
    M.runFrom s (e :: es) = M.runFrom (M.step s e) es := rfl

theorem runFrom_append (s : σ) (es fs : List ε) :
    M.runFrom s (es ++ fs) = M.runFrom (M.runFrom s es) fs := by
  simp [runFrom, List.foldl_append]

theorem run_append (es fs : List ε) : M.run (es ++ fs) = M.runFrom (M.run es) fs :=
  M.runFrom_append M.init es fs

theorem run_concat (es : List ε) (e : ε) : M.run (es ++ [e]) = M.step (M.run es) e := by
  rw [run_append]; rfl

theorem reachable_run (es : List ε) : M.Reachable (M.run es) := ⟨es, rfl⟩

theorem Reachable.step {M : Machine σ ε} {s : σ} (h : M.Reachable s) (e : ε) :
    M.Reachable (M.step s e) := by
  obtain ⟨es, rfl⟩ := h
  exact ⟨es ++ [e], M.run_concat es e⟩

/-! ## Invariants -/

/-- **The stability rule.** What one step keeps, every continuation
keeps. -/
theorem runFrom_stable {P : σ → Prop} (hstep : ∀ s e, P s → P (M.step s e)) {s : σ} (hs : P s)
    (es : List ε) : P (M.runFrom s es) := by
  induction es generalizing s with
  | nil => exact hs
  | cons e es ih => exact ih (hstep s e hs)

/-- **The invariant rule.** What holds initially and survives every step
holds of every reachable state. -/
theorem invariant {P : σ → Prop} (hinit : P M.init) (hstep : ∀ s e, P s → P (M.step s e)) {s : σ}
    (hs : M.Reachable s) : P s := by
  obtain ⟨es, rfl⟩ := hs
  exact M.runFrom_stable hstep hinit es

/-- A relation that every step respects, and that composes, relates a
state to every continuation of it. -/
theorem runFrom_rel {P : σ → Prop} {R : σ → σ → Prop} (hrefl : ∀ s, R s s)
    (htrans : ∀ {a b c}, R a b → R b c → R a c) (hP : ∀ s e, P s → P (M.step s e))
    (hstep : ∀ s e, P s → R s (M.step s e)) {s : σ} (hs : P s) (es : List ε) :
    R s (M.runFrom s es) := by
  induction es generalizing s with
  | nil => exact hrefl s
  | cons e es ih => exact htrans (hstep s e hs) (ih (hP s e hs))

/-! ## Runs whose steps meet a condition -/

/-- Every step of the run from `s` meets `C`, read at the state the step
starts from. -/
def Admits (C : σ → ε → Prop) : σ → List ε → Prop
  | _, [] => True
  | s, e :: es => C s e ∧ Admits C (M.step s e) es

instance decidableAdmits (C : σ → ε → Prop) [∀ s e, Decidable (C s e)] :
    ∀ s es, Decidable (M.Admits C s es)
  | _, [] => isTrue trivial
  | s, e :: es =>
    have := decidableAdmits C (M.step s e) es
    inferInstanceAs (Decidable (C s e ∧ M.Admits C (M.step s e) es))

theorem admits_append {C : σ → ε → Prop} {s : σ} {es fs : List ε} :
    M.Admits C s (es ++ fs) ↔ M.Admits C s es ∧ M.Admits C (M.runFrom s es) fs := by
  induction es generalizing s with
  | nil => simp [Admits]
  | cons e es ih => simp [Admits, ih, and_assoc]

/-- A run is admitted if every event of it is, where it stands. -/
theorem admits_iff {C : σ → ε → Prop} {s : σ} {es : List ε} :
    M.Admits C s es ↔ ∀ (before : List ε) (e : ε) (after : List ε),
      es = before ++ e :: after → C (M.runFrom s before) e := by
  constructor
  · intro h before e after hes
    rw [hes, admits_append] at h
    exact h.2.1
  · intro h
    induction es generalizing s with
    | nil => trivial
    | cons e es ih =>
      refine ⟨h [] e es rfl, ih fun before x after hes => ?_⟩
      exact h (e :: before) x after (by rw [hes]; rfl)

theorem admits_of_forall {C : σ → ε → Prop} {es : List ε} (h : ∀ e ∈ es, ∀ s, C s e) (s : σ) :
    M.Admits C s es := by
  induction es generalizing s with
  | nil => trivial
  | cons e es ih =>
    obtain ⟨he, hes⟩ := List.forall_mem_cons.mp h
    exact ⟨he s, ih hes (M.step s e)⟩

/-- **The conditional stability rule.** A property the admitted steps keep
holds all along an admitted run. -/
theorem runFrom_of_admits {C : σ → ε → Prop} {P : σ → Prop}
    (hstep : ∀ s e, P s → C s e → P (M.step s e)) {s : σ} (hs : P s) {es : List ε}
    (hes : M.Admits C s es) : P (M.runFrom s es) := by
  induction es generalizing s with
  | nil => exact hs
  | cons e es ih => exact ih (hstep s e hs hes.1) hes.2

/-! ## What a run leaves behind -/

/-- What the events of a run leave behind, each at the state it is taken
in, in order. -/
def gather {β : Type*} (f : σ → ε → List β) : σ → List ε → List β
  | _, [] => []
  | s, e :: es => f s e ++ gather f (M.step s e) es

theorem gather_append {β : Type*} (f : σ → ε → List β) (s : σ) (es fs : List ε) :
    M.gather f s (es ++ fs) = M.gather f s es ++ M.gather f (M.runFrom s es) fs := by
  induction es generalizing s with
  | nil => rfl
  | cons e es ih =>
    rw [List.cons_append, gather, ih, gather, List.append_assoc]
    rfl

/-- What a run leaves behind after one more event. -/
theorem gather_concat {β : Type*} (f : σ → ε → List β) (es : List ε) (e : ε) :
    M.gather f M.init (es ++ [e]) = M.gather f M.init es ++ f (M.run es) e := by
  rw [gather_append, gather, gather, List.append_nil]
  rfl

/-! ## Deleting steps that do nothing -/

/-- The events of `es` that survive when those `drop` marks, at the state
each would start from, are deleted. -/
def prune (drop : σ → ε → Bool) : σ → List ε → List ε
  | _, [] => []
  | s, e :: es =>
    if drop s e then prune drop (M.step s e) es else e :: prune drop (M.step s e) es

/-- **Deleting steps that change nothing changes no run.** -/
theorem runFrom_prune {P : σ → Prop} {drop : σ → ε → Bool}
    (hP : ∀ s e, P s → P (M.step s e)) (hdrop : ∀ s e, P s → drop s e = true → M.step s e = s)
    {s : σ} (hs : P s) (es : List ε) : M.runFrom s (M.prune drop s es) = M.runFrom s es := by
  induction es generalizing s with
  | nil => rfl
  | cons e es ih =>
    by_cases h : drop s e = true
    · have hse : M.step s e = s := hdrop s e hs h
      simp only [prune, h, if_true, runFrom_cons, hse]
      exact ih hs
    · simp only [prune, h, Bool.false_eq_true, if_false, runFrom_cons]
      exact ih (hP s e hs)

end Machine

end AgentReliability
