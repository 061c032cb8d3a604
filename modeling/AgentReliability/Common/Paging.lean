import Mathlib.Data.List.Sort
/-!
# Pages of a list

A list that is read page by page, by offset. A reader that stops at the
first page that is not full has read a prefix of a list that stays as it
is. Where the list grows between the reads, at whatever places, elements
are only pushed back: the reader may see one twice, but misses none of
those that were there when it began. A sorted list that is given more
elements grows in this sense.
-/

namespace AgentReliability

namespace Paging

variable {α : Type*} {size : ℕ} {l l' : List α}

/-- A page; the first is page 0. -/
def page (size p : ℕ) (l : List α) : List α := (l.drop (p * size)).take size

/-- The pages from one on, up to the first that is not full, and no more
than a limit. -/
def scan (size : ℕ) (fetch : ℕ → List α) : ℕ → ℕ → List α
  | 0, _ => []
  | limit + 1, p =>
    if (fetch p).length < size then fetch p else fetch p ++ scan size fetch limit (p + 1)

/-- What is not on a page, nor before it, is behind it. -/
theorem page_append_drop (size p : ℕ) (l : List α) :
    page size p l ++ l.drop ((p + 1) * size) = l.drop (p * size) := by
  rw [page, Nat.succ_mul, ← List.drop_drop, List.take_append_drop]

/-- Behind a page that is not full there is nothing. -/
theorem drop_of_short {p : ℕ} (h : (page size p l).length < size) :
    l.drop ((p + 1) * size) = [] := by
  rw [page, List.length_take, List.length_drop] at h
  rw [List.drop_eq_nil_iff, Nat.succ_mul]
  omega

/-- Pages behind the limit are not read. -/
theorem scan_congr {fetch fetch' : ℕ → List α} {limit p : ℕ}
    (h : ∀ q < p + limit, p ≤ q → fetch q = fetch' q) :
    scan size fetch limit p = scan size fetch' limit p := by
  induction limit generalizing p with
  | zero => rfl
  | succ limit ih =>
    rw [scan, scan, h p (by omega) le_rfl, ih fun q hq hle => h q (by omega) (by omega)]

/-- Elements that are shown as something else. -/
theorem map_scan {β : Type*} (f : α → β) (fetch : ℕ → List α) (limit p : ℕ) :
    scan size (fun p => (fetch p).map f) limit p = (scan size fetch limit p).map f := by
  induction limit generalizing p with
  | zero => rfl
  | succ limit ih =>
    rw [scan, scan, ih, List.length_map]
    split
    · rfl
    · rw [List.map_append]

/-- **The scan of a list is a prefix of it**, as long as the limit allows. -/
theorem scan_page (size : ℕ) (l : List α) (limit p : ℕ) :
    scan size (fun p => page size p l) limit p = (l.drop (p * size)).take (limit * size) := by
  induction limit generalizing p with
  | zero => simp [scan]
  | succ limit ih =>
    have hsplit : (l.drop (p * size)).take ((limit + 1) * size) =
        page size p l ++ (l.drop ((p + 1) * size)).take (limit * size) := by
      rw [Nat.succ_mul limit, Nat.add_comm (limit * size), List.take_add, List.drop_drop,
        Nat.succ_mul p]
      rfl
    rw [scan, ih, hsplit]
    split
    · next hshort => rw [drop_of_short hshort, List.take_nil, List.append_nil]
    · rfl

/-- What the first page cannot show is on one of the others. -/
theorem mem_scan {L : ℕ → List α} (hgrows : ∀ p, (L p).Sublist (L (p + 1))) {limit p : ℕ} {a : α}
    (ha : a ∈ (L p).drop (p * size))
    (hend : ∀ q, q + 1 = limit + p → (L q).length ≤ (q + 1) * size) (hlimit : 0 < limit) :
    a ∈ scan size (fun p => page size p (L p)) limit p := by
  induction limit generalizing p with
  | zero => omega
  | succ limit ih =>
    rw [scan]
    rw [← page_append_drop, List.mem_append] at ha
    split
    · next hshort =>
      rw [drop_of_short hshort] at ha
      exact ha.resolve_right List.not_mem_nil
    · refine List.mem_append.mpr (ha.imp_right fun hlater => ?_)
      -- the element may have been pushed back, but not over the page
      have hpushed := ((hgrows p).drop ((p + 1) * size)).subset hlater
      rcases Nat.eq_zero_or_pos limit with rfl | hpos
      · have hall := hend p (by omega)
        rw [List.drop_eq_nil_of_le hall] at hlater
        exact absurd hlater List.not_mem_nil
      · exact ih hpushed (fun q hq => hend q (by omega)) hpos

/-- **A list that grows between the reads is read without a gap**: all that
it had at the first one is read, if the last page is not full or ends the
list. -/
theorem mem_scan_of_grows {L : ℕ → List α} (hgrows : ∀ p, (L p).Sublist (L (p + 1))) {limit : ℕ}
    (hlimit : 0 < limit) (hend : ∀ q, q + 1 = limit → (L q).length ≤ limit * size) {a : α}
    (ha : a ∈ L 0) : a ∈ scan size (fun p => page size p (L p)) limit 0 := by
  refine mem_scan hgrows (by simpa using ha) (fun q hq => ?_) hlimit
  have hlast := hend q (by omega)
  rwa [hq]

/-- **More elements leave a sorted list in its order.** -/
theorem mergeSort_sublist {le : α → α → Bool} (htrans : ∀ a b c, le a b → le b c → le a c)
    (htotal : ∀ a b, le a b || le b a) (hanti : ∀ a b, le a b → le b a → a = b) (l m : List α) :
    (l.mergeSort le).Sublist ((l ++ m).mergeSort le) := by
  have hperm : (l.mergeSort le ++ m).Perm (l ++ m) :=
    (List.mergeSort_perm l le).append_right m
  have hsame : (l.mergeSort le ++ m).mergeSort le = (l ++ m).mergeSort le := by
    refine List.Perm.eq_of_pairwise (fun a b _ _ => hanti a b) (List.pairwise_mergeSort htrans htotal _)
      (List.pairwise_mergeSort htrans htotal _) ?_
    exact ((List.mergeSort_perm _ le).trans hperm).trans (List.mergeSort_perm _ le).symm
  rw [← hsame]
  exact List.sublist_mergeSort htrans htotal (List.pairwise_mergeSort htrans htotal l)
    (List.sublist_append_left _ _)

end Paging

end AgentReliability
