import Mathlib.Data.List.Basic
import Mathlib.Data.List.Infix
/-!
# Reading a growing log by a cursor

A log whose keys increase strictly is read page by page: each page is what
lies after the key of the last item read. As long as the log only grows at
its end, the pages put together are a prefix of what lies after the key the
reading started from, whatever is appended in between.
-/

namespace AgentReliability

namespace Cursor

variable {α : Type*} (key : α → ℕ)

/-- The keys of the log increase strictly. -/
def Increasing (log : List α) : Prop := log.Pairwise fun x y => key x < key y

/-- What lies after a key. -/
def after (c : ℕ) (log : List α) : List α := log.filter fun x => c < key x

/-- The cursor after a stretch was read: the key of its last item, or the
key the reading started from. -/
def last (c : ℕ) (read : List α) : ℕ := (read.getLast?.map key).getD c

@[simp] theorem last_concat (c : ℕ) (read : List α) (x : α) :
    last key c (read ++ [x]) = key x := by
  simp [last]

/-- Reading in two stretches. -/
theorem last_append (c : ℕ) (xs ys : List α) :
    last key c (xs ++ ys) = last key (last key c xs) ys := by
  rcases List.eq_nil_or_concat' ys with rfl | ⟨zs, y, rfl⟩
  · simp [last]
  · rw [← List.append_assoc, last_concat, last_concat]

variable {key} {c : ℕ} {log log' read : List α}

theorem Increasing.of_extended (h : Increasing key log') (hlog : log <+: log') :
    Increasing key log :=
  h.sublist hlog.sublist

theorem Increasing.after (h : Increasing key log) : Increasing key (after key c log) :=
  h.sublist List.filter_sublist

/-- Appending to the log appends to what lies after the cursor. -/
theorem after_mono (hlog : log <+: log') : after key c log <+: after key c log' := by
  obtain ⟨added, rfl⟩ := hlog
  exact ⟨Cursor.after key c added, (List.filter_append ..).symm⟩

/-- **The cursor is safe.** What lies after the last item read is the rest
of what lay after the start. -/
theorem after_last (h : Increasing key log) (hread : read <+: after key c log) :
    after key (last key c read) log = (after key c log).drop read.length := by
  obtain ⟨rest, hrest⟩ := hread
  rcases List.eq_nil_or_concat' read with rfl | ⟨before, x, rfl⟩
  · simp [last]
  · rw [last_concat, ← hrest, List.drop_left]
    have hsorted : Increasing key (before ++ [x] ++ rest) := hrest ▸ h.after
    have hx : c < key x := by
      have hmem : x ∈ after key c log := by
        rw [← hrest]
        simp
      simpa using (List.mem_filter.mp hmem).2
    -- Nothing up to `c` lies after `x`, so the log may be filtered twice.
    have htwice : after key (key x) log = after key (key x) (after key c log) := by
      unfold after
      rw [List.filter_filter]
      refine List.filter_congr fun y _ => ?_
      by_cases hy : key x < key y
      · simp [hy, hx.trans hy]
      · simp [hy]
    obtain ⟨hleft, hright, hcross⟩ := List.pairwise_append.mp hsorted
    rw [htwice, ← hrest, after, List.filter_append]
    have hnone : (before ++ [x]).filter (fun y => key x < key y) = [] := by
      refine List.filter_eq_nil_iff.mpr fun y hy => ?_
      rcases List.mem_append.mp hy with hy | hy
      · have := (List.pairwise_append.mp hleft).2.2 y hy x (List.mem_singleton_self x)
        simp [this.le]
      · simp [List.mem_singleton.mp hy]
    have hall : rest.filter (fun y => key x < key y) = rest := by
      refine List.filter_eq_self.mpr fun y hy => ?_
      simpa using hcross x (by simp) y hy
    rw [hnone, hall, List.nil_append]

/-- **The page rule.** A page of what lies after the cursor goes on from
what was read. -/
theorem append_page (h : Increasing key log) (hread : read <+: after key c log) {page : List α}
    (hpage : page <+: after key (last key c read) log) : read ++ page <+: after key c log := by
  rw [after_last h hread] at hpage
  obtain ⟨rest, hrest⟩ := hread
  rw [← hrest, List.drop_left] at hpage
  rw [← hrest]
  exact (List.prefix_append_right_inj read).mpr hpage

/-- Two readers at one cursor go on the same way. -/
theorem next_of_last_eq (h : Increasing key log) {d : ℕ} {xs ys : List α}
    (hxs : xs <+: after key c log) (hys : ys <+: after key d log)
    (hlast : last key c xs = last key d ys) {page : List α} (hpage : ys ++ page <+: after key d log) :
    xs ++ page <+: after key c log := by
  refine append_page h hxs ?_
  rw [hlast, after_last h hys]
  obtain ⟨rest, hrest⟩ := hys
  rw [← hrest] at hpage ⊢
  rw [List.drop_left]
  exact (List.prefix_append_right_inj ys).mp hpage

/-- A prefix of what was read, at its own cursor. -/
theorem take_read (hread : read <+: after key c log) (n : ℕ) : read.take n <+: after key c log :=
  have hfirst : read.take n <+: read := List.take_prefix n read
  hfirst.trans hread

end Cursor

end AgentReliability
