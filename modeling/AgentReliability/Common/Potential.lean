import AgentReliability.Common.Machine
import Mathlib.Algebra.Ring.Nat
import Mathlib.Tactic.Common
/-!
# Machines with a potential

A potential is a number read off the state that no event raises and that
every move lowers. It bounds the moves of a run, however many other events
stand between them.
-/

namespace AgentReliability

namespace Machine

variable {σ ε : Type*} (M : Machine σ ε)

/-- How many events of a run are moves, each read at the state it is taken
in. -/
def moves (move : σ → ε → Bool) : σ → List ε → ℕ
  | _, [] => 0
  | s, e :: es => (if move s e then 1 else 0) + moves move (M.step s e) es

/-- **`φ` is a potential of the moves**, on the states that meet `P`. -/
structure Potential (P : σ → Prop) (move : σ → ε → Bool) (φ : σ → ℕ) : Prop where
  keeps : ∀ s e, P s → P (M.step s e)
  falls : ∀ s e, P s → φ (M.step s e) ≤ φ s
  pays : ∀ s e, P s → move s e = true → φ (M.step s e) < φ s

variable {M} {P : σ → Prop} {φ : σ → ℕ}

/-- **A run has no more moves than its potential pays for.** -/
theorem Potential.moves_le {move : σ → ε → Bool} (h : M.Potential P move φ) {s : σ} (hs : P s)
    (es : List ε) : M.moves move s es + φ (M.runFrom s es) ≤ φ s := by
  induction es generalizing s with
  | nil => simp [moves]
  | cons e es ih =>
    have hrest := ih (h.keeps s e hs)
    have hfalls := h.falls s e hs
    rw [moves, runFrom_cons]
    split
    · next hmove =>
      have hpays := h.pays s e hs hmove
      omega
    · omega

end Machine

end AgentReliability
