import Mathlib.Algebra.Order.BigOperators.Group.List
import Mathlib.Algebra.Order.Group.Nat
import Mathlib.Algebra.Ring.Nat
import Mathlib.Tactic.Common
/-!
# Reservation ledgers

An entry of a ledger reserves an amount before it is spent and may be
settled, later, with the amount that was used. It is charged the amount
used once that is known, and its reservation until then. The part of a
charge that its reservation covers is what a limit can bound: a
reservation is only granted out of what is left, and settling an entry
never raises the part that is covered. What is used beyond a reservation
is the overrun, and no limit bounds it.
-/

namespace AgentReliability

namespace Reservation

variable {α : Type*} (reserved : α → ℕ) (used : α → Option ℕ)

/-- What an entry is charged. -/
def charge (a : α) : ℕ := (used a).getD (reserved a)

/-- What a settled entry used beyond its reservation. -/
def overrun (a : α) : ℕ := (used a).elim 0 fun n => n - reserved a

/-- The part of the charge that the reservation covers. -/
def covered (a : α) : ℕ := min (charge reserved used a) (reserved a)

theorem covered_le_reserved (a : α) : covered reserved used a ≤ reserved a := Nat.min_le_right _ _

theorem covered_of_open {a : α} (h : used a = none) : covered reserved used a = reserved a := by
  unfold covered charge
  rw [h, Option.getD_none, Nat.min_self]

theorem covered_add_overrun (a : α) :
    covered reserved used a + overrun reserved used a = charge reserved used a := by
  unfold covered overrun charge
  cases used a with
  | none => simp
  | some n =>
    simp only [Option.getD_some, Option.elim_some]
    omega

/-- **A ledger's charge is what is covered and what is not.** -/
theorem sum_charge (l : List α) : (l.map (charge reserved used)).sum =
    (l.map (covered reserved used)).sum + (l.map (overrun reserved used)).sum := by
  induction l with
  | nil => rfl
  | cons a l ih =>
    have := covered_add_overrun reserved used a
    simp only [List.map_cons, List.sum_cons]
    omega

theorem sum_covered_le_sum_charge (l : List α) :
    (l.map (covered reserved used)).sum ≤ (l.map (charge reserved used)).sum := by
  rw [sum_charge]
  omega

/-- **The reservation rule.** A reservation out of what the charges leave
keeps the covered part within the limit. -/
theorem sum_covered_reserve {limit : ℕ} {l : List α} {a : α}
    (hroom : reserved a ≤ limit - (l.map (charge reserved used)).sum)
    (h : (l.map (covered reserved used)).sum ≤ limit) :
    ((l ++ [a]).map (covered reserved used)).sum ≤ limit := by
  have hle := sum_covered_le_sum_charge reserved used l
  have ha := covered_le_reserved reserved used a
  rw [List.map_append, List.sum_append, List.map_singleton, List.sum_singleton]
  omega

/-- **The settlement rule.** Entries that are settled, once and with
whatever amount, do not raise the covered part. -/
theorem sum_covered_settle {l : List α} {f : α → α}
    (hf : ∀ a ∈ l, f a = a ∨ (used a = none ∧ reserved (f a) = reserved a)) :
    ((l.map f).map (covered reserved used)).sum ≤ (l.map (covered reserved used)).sum := by
  rw [List.map_map]
  refine List.sum_le_sum fun a ha => ?_
  rcases hf a ha with hsame | ⟨hopen, hreserved⟩
  · rw [Function.comp_apply, hsame]
  · have := covered_le_reserved reserved used (f a)
    rw [Function.comp_apply, covered_of_open reserved used hopen]
    omega

/-- Entries within their reservations overrun nothing. -/
theorem sum_overrun_eq_zero {l : List α} (h : ∀ a ∈ l, ∀ n ∈ used a, n ≤ reserved a) :
    (l.map (overrun reserved used)).sum = 0 := by
  refine List.sum_eq_zero fun n hn => ?_
  obtain ⟨a, ha, rfl⟩ := List.mem_map.mp hn
  unfold overrun
  cases hused : used a with
  | none => rfl
  | some n =>
    have := h a ha n hused
    simp only [Option.elim_some]
    omega

/-- **The limit.** A ledger whose covered part is within the limit is
charged no more than the limit and the overruns. -/
theorem sum_charge_le {limit : ℕ} {l : List α} (h : (l.map (covered reserved used)).sum ≤ limit) :
    (l.map (charge reserved used)).sum ≤ limit + (l.map (overrun reserved used)).sum := by
  rw [sum_charge]
  omega

/-- **The matching rule.** What is spent under distinct keys, each within the
charge of an entry of its key, is within the charge of the ledger. -/
theorem sum_le_of_matched {β κ : Type*} (id : α → κ) (key : β → κ) {g : α → ℕ} {f : β → ℕ}
    {xs : List β} (hkeys : (xs.map key).Nodup) {l : List α}
    (h : ∀ x ∈ xs, ∃ a ∈ l, id a = key x ∧ f x ≤ g a) : (xs.map f).sum ≤ (l.map g).sum := by
  induction xs generalizing l with
  | nil => exact Nat.zero_le _
  | cons x xs ih =>
    obtain ⟨a, ha, hid, hle⟩ := h x List.mem_cons_self
    obtain ⟨front, back, rfl⟩ := List.append_of_mem ha
    obtain ⟨hx, hnodup⟩ := List.nodup_cons.mp hkeys
    -- The others have other keys, so their entries are beside this one.
    have hrest : (xs.map f).sum ≤ ((front ++ back).map g).sum := by
      refine ih hnodup fun y hy => ?_
      obtain ⟨b, hb, hbid, hble⟩ := h y (List.mem_cons_of_mem _ hy)
      refine ⟨b, ?_, hbid, hble⟩
      have hne : b ≠ a := by
        rintro rfl
        exact hx (List.mem_map.mpr ⟨y, hy, hbid.symm.trans hid⟩)
      rcases List.mem_append.mp hb with hb | hb
      · exact List.mem_append_left _ hb
      · exact List.mem_append_right _ (List.mem_of_ne_of_mem hne hb)
    simp only [List.map_append, List.sum_append, List.map_cons, List.sum_cons] at hrest ⊢
    omega

end Reservation

end AgentReliability
