import Mathlib.Data.List.Basic
import Mathlib.Data.List.Forall2
import Mathlib.Tactic.Common
/-!
# Texts that can be read off what they stand in front of

A value is readable if its text, followed by something a value can be
followed by, is the beginning of no other value's text with such a rest. A
value made of readable parts is readable where a mark tells what comes
next: the items of a list, between separators and up to the closing mark.

Readability is up to a relation, so that a text may stand for a class of
values.
-/

namespace AgentReliability

namespace PrefixCode

variable {σ α : Type*}

/-- `a` is read back from its text, up to `R`, where the text is followed by
what `stop` allows. -/
def Readable (stop : List σ → Prop) (text : α → List σ) (R : α → α → Prop) (a : α) : Prop :=
  ∀ b r r', stop r → stop r' → text a ++ r = text b ++ r' → R a b ∧ r = r'

/-- A text of marks of one kind ends where a mark is of another. -/
theorem append_inj_of_marks {p : σ → Prop} {s t r r' : List σ} (hs : ∀ c ∈ s, p c)
    (ht : ∀ c ∈ t, p c) (hr : ∀ c ∈ r.head?, ¬ p c) (hr' : ∀ c ∈ r'.head?, ¬ p c)
    (h : s ++ r = t ++ r') : s = t ∧ r = r' := by
  induction s generalizing t with
  | nil =>
    cases t with
    | nil => exact ⟨rfl, h⟩
    | cons d t =>
      rw [List.nil_append] at h
      exact absurd (ht d List.mem_cons_self) (hr d (by rw [h]; rfl))
  | cons c s ih =>
    cases t with
    | nil =>
      rw [List.nil_append] at h
      exact absurd (hs c List.mem_cons_self) (hr' c (by rw [← h]; rfl))
    | cons d t =>
      obtain ⟨rfl, htail⟩ := List.cons.inj h
      obtain ⟨rfl, rfl⟩ := ih (List.forall_mem_cons.mp hs).2 (List.forall_mem_cons.mp ht).2 htail
      exact ⟨rfl, rfl⟩

/-! ## Lists -/

/-- What follows the first item of a list. -/
theorem intercalate_cons (sep : σ) (x : List σ) (xs : List (List σ)) :
    [sep].intercalate (x :: xs) = x ++ xs.flatMap (sep :: ·) := by
  induction xs generalizing x with
  | nil => simp
  | cons y xs ih => simp [List.intercalate_cons_cons, ih]

section

variable {stop : List σ → Prop} {text : α → List σ} {R : α → α → Prop} {sep close : σ}

/-- What follows an item of a list is what a value can be followed by. -/
theorem stop_tail (hsep : ∀ r, stop (sep :: r)) (hclose : ∀ r, stop (close :: r)) (xs : List α)
    (r : List σ) : stop ((xs.map text).flatMap (sep :: ·) ++ close :: r) := by
  cases xs with
  | nil => exact hclose r
  | cons x xs => exact hsep _

/-- After an item: more items, each behind a separator, or the end. -/
theorem readable_tail (hne : sep ≠ close) (hsep : ∀ r, stop (sep :: r))
    (hclose : ∀ r, stop (close :: r)) {xs : List α} (hxs : ∀ a ∈ xs, Readable stop text R a)
    {ys : List α} {r r' : List σ}
    (h : (xs.map text).flatMap (sep :: ·) ++ close :: r =
      (ys.map text).flatMap (sep :: ·) ++ close :: r') : List.Forall₂ R xs ys ∧ r = r' := by
  induction xs generalizing ys with
  | nil =>
    cases ys with
    | nil => exact ⟨.nil, (List.cons.inj h).2⟩
    | cons y ys => exact absurd (List.cons.inj h).1.symm hne
  | cons x xs ih =>
    cases ys with
    | nil => exact absurd (List.cons.inj h).1 hne
    | cons y ys =>
      obtain ⟨hx, hrest⟩ := List.forall_mem_cons.mp hxs
      simp only [List.map_cons, List.flatMap_cons, List.cons_append, List.append_assoc] at h
      obtain ⟨hxy, htail⟩ := hx y _ _ (stop_tail hsep hclose xs r) (stop_tail hsep hclose ys r')
        (List.cons.inj h).2
      obtain ⟨hitems, hr⟩ := ih hrest htail
      exact ⟨.cons hxy hitems, hr⟩

/-- **The items of a list are read back**, if no item starts with the mark
that closes it. -/
theorem readable_items (hne : sep ≠ close) (hsep : ∀ r, stop (sep :: r))
    (hclose : ∀ r, stop (close :: r)) (hhead : ∀ a, ∃ c rest, text a = c :: rest ∧ c ≠ close)
    {xs : List α} (hxs : ∀ a ∈ xs, Readable stop text R a) {ys : List α} {r r' : List σ}
    (h : [sep].intercalate (xs.map text) ++ close :: r =
      [sep].intercalate (ys.map text) ++ close :: r') : List.Forall₂ R xs ys ∧ r = r' := by
  cases xs with
  | nil =>
    cases ys with
    | nil => exact ⟨.nil, (List.cons.inj h).2⟩
    | cons y ys =>
      obtain ⟨c, rest, hc, hclosed⟩ := hhead y
      rw [List.map_cons, intercalate_cons, hc] at h
      exact absurd (List.cons.inj h).1.symm hclosed
  | cons x xs =>
    cases ys with
    | nil =>
      obtain ⟨c, rest, hc, hclosed⟩ := hhead x
      rw [List.map_cons, intercalate_cons, hc] at h
      exact absurd (List.cons.inj h).1 hclosed
    | cons y ys =>
      obtain ⟨hx, hrest⟩ := List.forall_mem_cons.mp hxs
      rw [List.map_cons, List.map_cons, intercalate_cons, intercalate_cons, List.append_assoc,
        List.append_assoc] at h
      obtain ⟨hxy, htail⟩ := hx y _ _ (stop_tail hsep hclose xs r) (stop_tail hsep hclose ys r') h
      obtain ⟨hitems, hr⟩ := readable_tail hne hsep hclose hrest htail
      exact ⟨.cons hxy hitems, hr⟩

end

end PrefixCode

end AgentReliability
