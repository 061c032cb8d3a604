import Mathlib.Data.List.Nodup
/-!
# Tables with a unique column

A table is a list of rows in the order they were inserted; `key` is a
column no two rows share. Rows are inserted at the end and updated in
place, and the lookup by the column follows both.
-/

namespace AgentReliability

namespace Table

variable {α κ : Type*} [DecidableEq κ] (key : α → κ)

/-- The row with a key (`findUnique`). -/
def lookup (rows : List α) (k : κ) : Option α := rows.find? fun a => key a = k

/-- No two rows share the column. -/
def Unique (rows : List α) : Prop := (rows.map key).Nodup

variable {key} {rows : List α} {a b : α} {i : ℕ} {k : κ}

theorem key_of_lookup (h : lookup key rows k = some a) : key a = k := by
  simpa using List.find?_some h

theorem mem_of_lookup (h : lookup key rows k = some a) : a ∈ rows := List.mem_of_find?_eq_some h

/-- A key that is not in the table. -/
theorem lookup_eq_none : lookup key rows k = none ↔ ∀ a ∈ rows, key a ≠ k := by
  unfold lookup
  rw [List.find?_eq_none]
  simp

theorem lookup_cons : lookup key (a :: rows) k = if key a = k then some a else lookup key rows k := by
  unfold lookup
  by_cases h : key a = k
  · rw [List.find?_cons_of_pos (by simpa using h), if_pos h]
  · rw [List.find?_cons_of_neg (by simpa using h), if_neg h]

/-- **A row of the table is found under its key.** -/
theorem lookup_of_mem (hu : Unique key rows) (ha : a ∈ rows) : lookup key rows (key a) = some a := by
  induction rows with
  | nil => exact absurd ha List.not_mem_nil
  | cons b rows ih =>
    obtain ⟨hb, hu⟩ := List.nodup_cons.mp hu
    rw [lookup_cons]
    rcases List.mem_cons.mp ha with rfl | ha
    · rw [if_pos rfl]
    · have hne : key b ≠ key a := fun he => hb (he ▸ List.mem_map_of_mem ha)
      rw [if_neg hne]
      exact ih hu ha

omit [DecidableEq κ] in
/-- The column of a table one row of which was updated. -/
theorem map_set (ha : rows[i]? = some a) (hkey : key b = key a) :
    (rows.set i b).map key = rows.map key := by
  have hi : i < (rows.map key).length := by
    rw [List.length_map]
    exact (List.getElem?_eq_some_iff.mp ha).1
  have hget : (rows.map key)[i] = key b := by
    rw [List.getElem_map, (List.getElem?_eq_some_iff.mp ha).2, hkey]
  rw [List.map_set, ← hget]
  exact List.set_getElem_self hi

omit [DecidableEq κ] in
theorem Unique.set (hu : Unique key rows) (ha : rows[i]? = some a) (hkey : key b = key a) :
    Unique key (rows.set i b) := by
  unfold Unique
  rw [map_set ha hkey]
  exact hu

omit [DecidableEq κ] in
theorem Unique.append (hu : Unique key rows) (hfresh : ∀ b ∈ rows, key b ≠ key a) :
    Unique key (rows ++ [a]) := by
  unfold Unique
  rw [List.map_append, List.map_singleton]
  refine List.nodup_append.mpr ⟨hu, List.nodup_singleton _, fun x hx y hy => ?_⟩
  obtain ⟨b, hb, rfl⟩ := List.mem_map.mp hx
  rw [List.mem_singleton.mp hy]
  exact hfresh b hb

/-- **The lookup after an update in place.** -/
theorem lookup_set (hu : Unique key rows) (ha : rows[i]? = some a) (hkey : key b = key a) :
    lookup key (rows.set i b) k = if k = key a then some b else lookup key rows k := by
  induction rows generalizing i with
  | nil => exact absurd ha (by simp)
  | cons c rows ih =>
    obtain ⟨hc, hu⟩ := List.nodup_cons.mp hu
    cases i with
    | zero =>
      obtain rfl : c = a := by simpa using ha
      rw [List.set_cons_zero, lookup_cons, lookup_cons, hkey]
      by_cases hk : k = key c
      · rw [if_pos hk.symm, if_pos hk]
      · rw [if_neg (fun he => hk he.symm), if_neg hk, if_neg (fun he => hk he.symm)]
    | succ i =>
      have ha : rows[i]? = some a := by simpa using ha
      have hca : key c ≠ key a := fun he =>
        hc (he ▸ List.mem_map_of_mem (List.mem_of_getElem? ha))
      rw [List.set_cons_succ, lookup_cons, lookup_cons, ih hu ha]
      by_cases hk : key c = k
      · have hka : k ≠ key a := fun he => hca (hk.trans he)
        rw [if_pos hk, if_neg hka, if_pos hk]
      · rw [if_neg hk, if_neg hk]

/-- **The lookup after an insert.** -/
theorem lookup_append (hfresh : ∀ b ∈ rows, key b ≠ key a) :
    lookup key (rows ++ [a]) k = if k = key a then some a else lookup key rows k := by
  induction rows with
  | nil =>
    rw [List.nil_append, lookup_cons]
    by_cases hk : k = key a
    · rw [if_pos hk.symm, if_pos hk]
    · rw [if_neg (fun he => hk he.symm), if_neg hk]
  | cons b rows ih =>
    have hb : key b ≠ key a := hfresh b List.mem_cons_self
    rw [List.cons_append, lookup_cons, lookup_cons, ih fun c hc => hfresh c (List.mem_cons_of_mem _ hc)]
    by_cases hk : key b = k
    · have hka : k ≠ key a := fun he => hb (hk.trans he)
      rw [if_pos hk, if_neg hka, if_pos hk]
    · rw [if_neg hk, if_neg hk]

end Table

end AgentReliability
