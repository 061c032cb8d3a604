import AgentReliability.ControlPlane.TaskPages
/-!
# The page of the task list

`TasksList` reads the page from the URL, asks for it, and corrects the URL
once it knows how many pages there are. What it knows may be old: an answer
from the query cache, or one the control plane has gone on from. The list
only grows, so a page that existed then still does.
-/

namespace AgentReliability

namespace Web

open ControlPlane StringNumber

/-! ## The page in the URL -/

/-- `PAGE_SIZE`. -/
def pageSize : ℕ := 20

/-- `page`: of the parameters of that name, if there is one and it is
valid. -/
def pageOf (params : List String) : ℕ :=
  match params with
  | [text] =>
    match positiveIntegerQuery text with
    | some page => if (page - 1) * pageSize ≤ maxSafeInteger then page else 1
    | none => 1
  | _ => 1

/-- `totalPages`. -/
def totalPages (total : ℕ) : ℕ := max 1 ((total + (pageSize - 1)) / pageSize)

/-- `correctedPage`, with the total of the answer, once there is one. -/
def correctedPage (page : ℕ) : Option ℕ → ℕ
  | some total => if totalPages total < page then totalPages total else page
  | none => page

/-- The effect: the parameters after `router.replace`, where it is called. -/
def replaceUrl (params : List String) (total : Option ℕ) : List String :=
  let text := toString (correctedPage (pageOf params) total)
  if params.head? ≠ some text ∨ params.length ≠ 1 then [text] else params

/-- `visiblePages`: the pages with a button of their own. -/
def visiblePages (page total : ℕ) : List ℕ :=
  (([1, totalPages total] ++ (List.range 5).map fun index => page + index - 2).eraseDups.filter
    fun value => 1 ≤ value ∧ value ≤ totalPages total).mergeSort

/-- The pages the buttons lead to: those, the one before and the next. -/
def buttons (page total : ℕ) : List ℕ :=
  visiblePages page total ++ (if page = 1 then [] else [page - 1]) ++
    (if page = totalPages total then [] else [page + 1])

/-! ## Pages that exist -/

/-- The page is one of a list of so many tasks. -/
def InRange (total page : ℕ) : Prop := 0 < page ∧ page ≤ totalPages total

theorem InRange.mono {total total' page : ℕ} (h : InRange total page) (hle : total ≤ total') :
    InRange total' page := by
  have hpages : totalPages total ≤ totalPages total' := by
    unfold totalPages pageSize
    omega
  exact ⟨h.1, h.2.trans hpages⟩

/-- What stands before a page in range are fewer tasks than there are. -/
theorem InRange.offset_lt {total page : ℕ} (h : InRange total page) (hpos : 0 < total) :
    (page - 1) * pageSize < total := by
  obtain ⟨hpage, hle⟩ := h
  unfold totalPages pageSize at hle
  unfold pageSize
  omega

/-- The page of the URL is one the schema takes. -/
theorem pageOf_safe (params : List String) :
    0 < pageOf params ∧ pageOf params ≤ maxSafeInteger ∧
      (pageOf params - 1) * pageSize ≤ maxSafeInteger := by
  have hone : 0 < 1 ∧ 1 ≤ maxSafeInteger ∧ (1 - 1) * pageSize ≤ maxSafeInteger := by decide
  unfold pageOf
  split
  · next text =>
    split
    · next page hpage =>
      split
      · next hsafe =>
        obtain ⟨hpos, hle⟩ := positiveIntegerQuery_bounds hpage
        exact ⟨hpos, hle, hsafe⟩
      · exact hone
    · exact hone
  · exact hone

/-- A page that is written into the URL is read from it. -/
theorem pageOf_toString {page : ℕ} (hpos : 0 < page) (hle : page ≤ maxSafeInteger)
    (hsafe : (page - 1) * pageSize ≤ maxSafeInteger) : pageOf [toString page] = page := by
  unfold pageOf
  simp only [positiveIntegerQuery_toString hpos hle]
  rw [if_pos hsafe]

theorem replaceUrl_eq (params : List String) (total : Option ℕ) :
    replaceUrl params total = [toString (correctedPage (pageOf params) total)] := by
  simp only [replaceUrl]
  split
  · rfl
  · next hkept =>
    obtain ⟨hhead, hlength⟩ := not_or.mp hkept
    obtain ⟨text, rfl⟩ := List.length_eq_one_iff.mp (not_not.mp hlength)
    rw [← Option.some.inj (not_not.mp hhead)]

theorem correctedPage_le (page : ℕ) (total : Option ℕ) : correctedPage page total ≤ page := by
  unfold correctedPage
  split
  · split <;> omega
  · exact le_rfl

theorem correctedPage_inRange {page : ℕ} (hpos : 0 < page) (total : ℕ) :
    InRange total (correctedPage page (some total)) := by
  have hpages : 0 < totalPages total := by
    unfold totalPages
    omega
  simp only [correctedPage, InRange]
  split <;> omega

/-- A page in range is not corrected. -/
theorem correctedPage_of_inRange {total page : ℕ} (h : InRange total page) :
    correctedPage page (some total) = page := if_neg (by have := h.2; omega)

/-- **The buttons of a page in range lead to pages in range.** -/
theorem inRange_of_mem_buttons {page total : ℕ} (h : InRange total page) {q : ℕ}
    (hq : q ∈ buttons page total) : InRange total q := by
  obtain ⟨hpos, hle⟩ := h
  unfold buttons at hq
  rcases List.mem_append.mp hq with hq | hnext
  · rcases List.mem_append.mp hq with hvisible | hbefore
    · unfold visiblePages at hvisible
      rw [List.mem_mergeSort, List.mem_filter] at hvisible
      have hshown : 1 ≤ q ∧ q ≤ totalPages total := of_decide_eq_true hvisible.2
      exact ⟨hshown.1, hshown.2⟩
    · split at hbefore
      · exact absurd hbefore List.not_mem_nil
      · obtain rfl := List.mem_singleton.mp hbefore
        exact ⟨by omega, by omega⟩
  · split at hnext
    · exact absurd hnext List.not_mem_nil
    · obtain rfl := List.mem_singleton.mp hnext
      exact ⟨by omega, by omega⟩

/-! ## Beside the control plane -/

/-- Tasks are not deleted. -/
theorem total_le (es fs : List Event) :
    (machine.run es).db.runs.length ≤ (machine.run (es ++ fs)).db.runs.length := by
  have hgrown := (listed_sublist (Function.Embedding.refl RunId) es fs).length_le
  rwa [length_listed, length_listed] at hgrown

end Web

end AgentReliability
