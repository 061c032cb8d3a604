import Mathlib.Logic.Basic
/-!
# Guarded steps in `Except`

A transaction is a chain of guards and row updates that either runs to
its commit or stops at the first error. The lemmas here take such a chain
apart: a chain that committed passed every guard, and each of its steps
committed.
-/

namespace AgentReliability

universe u v

variable {ε : Type v} {α β : Type u}

/-- Stops with `err` unless `p` holds. -/
def require (p : Prop) [Decidable p] (err : ε) : Except ε Unit :=
  if p then .ok () else .error err

@[simp] theorem require_eq_ok {p : Prop} [Decidable p] {err : ε} {u : Unit} :
    require p err = .ok u ↔ p := by
  unfold require
  split <;> simp_all

theorem require_of {p : Prop} [Decidable p] (err : ε) (hp : p) : require p err = .ok () :=
  if_pos hp

/-- **A chain commits exactly when its first step does and the rest does
after it.** -/
@[simp] theorem bind_eq_ok {x : Except ε α} {f : α → Except ε β} {b : β} :
    (x >>= f) = .ok b ↔ ∃ a, x = .ok a ∧ f a = .ok b := by
  rcases x with e | a <;> simp [bind, Except.bind]

@[simp] theorem pure_eq_ok {a b : α} : (pure a : Except ε α) = .ok b ↔ a = b := by
  simp [pure, Except.pure]

@[simp] theorem throw_ne_ok {err : ε} {a : α} : (throw err : Except ε α) ≠ .ok a := by
  simp [throw, throwThe, MonadExceptOf.throw]

/-- **A chain stops where its first step does, or later.** -/
theorem bind_eq_error {x : Except ε α} {f : α → Except ε β} {err : ε} :
    (x >>= f) = .error err ↔ x = .error err ∨ ∃ a, x = .ok a ∧ f a = .error err := by
  rcases x with e | a <;> simp [bind, Except.bind]

theorem require_eq_error {p : Prop} [Decidable p] {err err' : ε} :
    require p err = .error err' ↔ ¬ p ∧ err = err' := by
  unfold require
  split <;> simp_all

theorem toOption_eq_some {x : Except ε α} {a : α} : x.toOption = some a ↔ x = .ok a := by
  cases x <;> simp [Except.toOption]

/-- A row that must be there. -/
def orThrow (x : Option α) (err : ε) : Except ε α :=
  match x with
  | some a => .ok a
  | none => .error err

@[simp] theorem orThrow_eq_ok {x : Option α} {err : ε} {a : α} :
    orThrow x err = .ok a ↔ x = some a := by
  cases x <;> simp [orThrow]

theorem orThrow_eq_error {x : Option α} {err err' : ε} :
    orThrow x err = .error err' ↔ x = none ∧ err = err' := by
  cases x <;> simp [orThrow]

end AgentReliability
