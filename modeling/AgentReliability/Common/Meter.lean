import Mathlib.Data.List.Basic
/-!
# A meter

Something is used in portions, and how large a portion is turns out only
afterwards. The meter shows what has been used so far, and remembers what
it showed each time another portion was asked for: a limit on a metered
use is a limit on what the meter showed then.
-/

namespace AgentReliability

structure Meter where
  spent : ℕ := 0
  /-- What was spent at each start, oldest first. -/
  starts : List ℕ := []
  deriving DecidableEq, Repr

namespace Meter

variable (m : Meter)

/-- Another portion is asked for. -/
def start : Meter := { m with starts := m.starts ++ [m.spent] }

/-- A portion has come to `n`. -/
def spend (n : ℕ) : Meter := { m with spent := m.spent + n }

@[simp] theorem start_spent : m.start.spent = m.spent := rfl

@[simp] theorem start_starts : m.start.starts = m.starts ++ [m.spent] := rfl

@[simp] theorem spend_spent (n : ℕ) : (m.spend n).spent = m.spent + n := rfl

@[simp] theorem spend_starts (n : ℕ) : (m.spend n).starts = m.starts := rfl

/-- **The limit was kept**: nothing was asked for when more than the limit
had been spent, with `prior` spent before the meter was set. -/
def Within (prior limit : ℕ) : Prop := ∀ n ∈ m.starts, prior + n ≤ limit

instance (prior limit : ℕ) : Decidable (m.Within prior limit) := by
  unfold Within; infer_instance

variable {m} {prior limit : ℕ}

theorem within_new : ({} : Meter).Within prior limit := fun _ hn => absurd hn (by simp)

theorem Within.start (h : m.Within prior limit) (hspent : prior + m.spent ≤ limit) :
    m.start.Within prior limit := by
  intro n hn
  rw [start_starts, List.mem_append, List.mem_singleton] at hn
  rcases hn with hn | rfl
  · exact h n hn
  · exact hspent

theorem Within.spend (h : m.Within prior limit) (n : ℕ) : (m.spend n).Within prior limit := h

/-- **A start beyond the limit**: it is remembered. -/
theorem not_within_start (h : limit < prior + m.spent) : ¬ m.start.Within prior limit := by
  intro hwithin
  have hle := hwithin m.spent (by simp)
  omega

/-- Nothing had been spent at any start. -/
theorem within_of_zero (h : ∀ n ∈ m.starts, n = 0) (hprior : prior ≤ limit) :
    m.Within prior limit := by
  intro n hn
  rw [h n hn]
  omega

end Meter

end AgentReliability
