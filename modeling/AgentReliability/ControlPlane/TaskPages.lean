import AgentReliability.Common.Paging
import AgentReliability.Common.StringNumber
import AgentReliability.ControlPlane.Writes
import Mathlib.Data.List.Infix
/-!
# The pages of the task list

`TaskController.list` shows the tasks by the time they were created, the
newest first, a page at a time. Tasks are created while someone turns the
pages; none is ever deleted, and its time of creation stays. So the list
grows, and who reads on until a page ends it has seen every task there was
at the start.
-/

namespace AgentReliability

namespace ControlPlane

/-! ## The query -/

/-- `PositiveIntegerQuery`. -/
def positiveIntegerQuery (text : String) : Option ℕ :=
  if text ≠ "" ∧ text.toList.all Char.isDigit then
    ((StringNumber.safeInteger? text).filter (0 < ·)).map Int.toNat
  else none

/-- What `ListTasksSchema` has accepted. -/
structure ListTasksQuery where
  page : ℕ
  pageSize : ℕ
  page_pos : 0 < page
  pageSize_bounds : 0 < pageSize ∧ pageSize ≤ 100
  offset_safe : (page - 1) * pageSize ≤ StringNumber.maxSafeInteger
  deriving DecidableEq, Repr

/-- `ListTasksSchema`, of a query whose parameters are given once at most. -/
def listTasksSchema (page pageSize : Option String) : Option ListTasksQuery := do
  let page ← positiveIntegerQuery (page.getD "1")
  let pageSize ← positiveIntegerQuery (pageSize.getD "20")
  if h : (0 < page ∧ 0 < pageSize) ∧ pageSize ≤ 100 ∧
      (page - 1) * pageSize ≤ StringNumber.maxSafeInteger then
    some ⟨page, pageSize, h.1.1, ⟨h.1.2, h.2.1⟩, h.2.2⟩
  else none

/-- A number that is written out is accepted. -/
theorem positiveIntegerQuery_toString {n : ℕ} (hpos : 0 < n)
    (hn : n ≤ StringNumber.maxSafeInteger) : positiveIntegerQuery (toString n) = some n := by
  have htext : (toString n).toList = Nat.toDigits 10 n := Nat.toList_repr
  have hdigits : (toString n).toList.all Char.isDigit := by
    rw [htext, List.all_eq_true]
    exact fun c hc => Nat.isDigit_of_mem_toDigits (by decide) (by decide) hc
  have hne : toString n ≠ "" := by
    intro h
    rw [h] at htext
    exact Nat.toDigits_ne_nil htext.symm
  have hint : (0 : ℤ) < n := by omega
  rw [positiveIntegerQuery, if_pos ⟨hne, hdigits⟩, StringNumber.safeInteger_toString hn,
    Option.filter_some, if_pos (decide_eq_true hint)]
  rfl

theorem positiveIntegerQuery_bounds {text : String} {n : ℕ}
    (h : positiveIntegerQuery text = some n) : 0 < n ∧ n ≤ StringNumber.maxSafeInteger := by
  unfold positiveIntegerQuery at h
  split at h
  · obtain ⟨k, hk, rfl⟩ := Option.map_eq_some_iff.mp h
    obtain ⟨hsafe, hpos⟩ := Option.filter_eq_some_iff.mp hk
    have hk0 : 0 < k := of_decide_eq_true hpos
    have hle := StringNumber.natAbs_le_of_safeInteger hsafe
    omega
  · exact absurd h (by simp)

/-! ## The list -/

section

-- `Task.id` is a generated text; only that it is one of its own matters
variable {κ : Type*} [LinearOrder κ] (taskId : RunId ↪ κ)

/-- A task, by its position and the time it was created. -/
abbrev TaskKey := RunId × Time

/-- `orderBy: [{ createdAt: 'desc' }, { id: 'desc' }]`. -/
def listedBefore (a b : TaskKey) : Bool :=
  b.2 < a.2 ∨ (a.2 = b.2 ∧ taskId b.1 ≤ taskId a.1)

def Database.taskKeys (db : Database) : List TaskKey :=
  db.runs.zipIdx.map fun x => (x.2, x.1.task.createdAt)

/-- The tasks, in the order of the list. -/
def Database.listed (db : Database) : List TaskKey := db.taskKeys.mergeSort (listedBefore taskId)

/-- The answer, with the tasks by their positions. -/
structure TaskList where
  items : List RunId
  total : ℕ
  page : ℕ
  pageSize : ℕ
  deriving DecidableEq, Repr

/-- `TaskController.list`. The transaction reads one version. -/
def listTasks (db : Database) (query : ListTasksQuery) : TaskList where
  items := (Paging.page query.pageSize (query.page - 1) (db.listed taskId)).map Prod.fst
  total := db.runs.length
  page := query.page
  pageSize := query.pageSize

theorem listedBefore_trans (a b c : TaskKey) (hab : listedBefore taskId a b)
    (hbc : listedBefore taskId b c) : listedBefore taskId a c := by
  simp only [listedBefore, decide_eq_true_eq] at hab hbc ⊢
  rcases hab with hab | ⟨hab, hab'⟩ <;> rcases hbc with hbc | ⟨hbc, hbc'⟩
  · exact .inl (hbc.trans hab)
  · exact .inl (hbc ▸ hab)
  · exact .inl (hab ▸ hbc)
  · exact .inr ⟨hab.trans hbc, hbc'.trans hab'⟩

theorem listedBefore_total (a b : TaskKey) : listedBefore taskId a b || listedBefore taskId b a := by
  simp only [listedBefore, Bool.or_eq_true, decide_eq_true_eq]
  rcases lt_trichotomy a.2 b.2 with hlt | heq | hgt
  · exact .inr (.inl hlt)
  · rcases le_total (taskId b.1) (taskId a.1) with hle | hle
    · exact .inl (.inr ⟨heq, hle⟩)
    · exact .inr (.inr ⟨heq.symm, hle⟩)
  · exact .inl (.inl hgt)

theorem listedBefore_antisymm (a b : TaskKey) (hab : listedBefore taskId a b)
    (hba : listedBefore taskId b a) : a = b := by
  simp only [listedBefore, decide_eq_true_eq] at hab hba
  rcases hab with hab | ⟨hab, hab'⟩ <;> rcases hba with hba | ⟨hba, hba'⟩
  · exact absurd hba (not_lt_of_gt hab)
  · exact absurd hab (by rw [hba]; exact lt_irrefl _)
  · exact absurd hba (by rw [hab]; exact lt_irrefl _)
  · exact Prod.ext (taskId.injective (le_antisymm hba' hab')) hab

variable {taskId}

theorem mem_listed {db : Database} {key : TaskKey} :
    key ∈ db.listed taskId ↔ ∃ r, db.runs[key.1]? = some r ∧ r.task.createdAt = key.2 := by
  unfold Database.listed
  rw [List.mem_mergeSort, Database.taskKeys, List.mem_map]
  constructor
  · rintro ⟨⟨r, id⟩, hmem, rfl⟩
    exact ⟨r, List.mem_zipIdx_iff_getElem?.mp hmem, rfl⟩
  · rintro ⟨r, hr, htime⟩
    exact ⟨(r, key.1), List.mem_zipIdx_iff_getElem?.mpr hr, Prod.ext rfl htime⟩

theorem length_listed (db : Database) : (db.listed taskId).length = db.runs.length := by
  unfold Database.listed
  rw [List.length_mergeSort, Database.taskKeys, List.length_map, List.length_zipIdx]

/-- A task is listed once. -/
theorem nodup_listed (db : Database) : ((db.listed taskId).map Prod.fst).Nodup := by
  unfold Database.listed
  rw [((List.mergeSort_perm _ _).map _).nodup_iff, Database.taskKeys, List.map_map]
  show (db.runs.zipIdx.map Prod.snd).Nodup
  rw [List.zipIdx_map_snd]
  exact List.nodup_range'

/-! ## The list grows -/

def Database.createdTimes (db : Database) : List Time := db.runs.map (·.task.createdAt)

/-- The times of creation are kept, and more are added at the end. -/
theorem createdTimes_step {s : State} (hs : Sound s) (e : Event) :
    s.db.createdTimes <+: (step s e).db.createdTimes := by
  unfold Database.createdTimes
  rcases db_step s e with ⟨db, hc, hdb⟩ | hsame
  · rw [hdb]
    cases hs.dbStep_of_commit hc with
    | created _ hruns =>
      rw [hruns, List.map_append]
      exact List.prefix_append _ _
    | @wrote env id r r' hr hrow hruns =>
      have htime : r'.task.createdAt = r.task.createdAt := by
        rw [(hrow.sameInput (hs.rows hr).1).task]
      have hkept : (s.db.runs.set id r').map (·.task.createdAt) =
          s.db.runs.map (·.task.createdAt) := by
        refine List.ext_getElem? fun i => ?_
        rw [List.getElem?_map, List.getElem?_map]
        by_cases hi : id = i
        · subst hi
          rw [List.getElem?_set_self (List.getElem?_eq_some_iff.mp hr).1, hr]
          exact congrArg some htime
        · rw [List.getElem?_set_ne hi]
      rw [hruns, hkept]
  · rw [hsame]

theorem taskKeys_eq (db : Database) :
    db.taskKeys = db.createdTimes.zipIdx.map Prod.swap := by
  rw [Database.taskKeys, Database.createdTimes, List.zipIdx_map, List.map_map]
  rfl

/-- **The list only grows**, whatever events follow. -/
theorem listed_sublist (taskId : RunId ↪ κ) (es fs : List Event) :
    ((machine.run es).db.listed taskId).Sublist ((machine.run (es ++ fs)).db.listed taskId) := by
  have htimes : (machine.run es).db.createdTimes <+: (machine.run (es ++ fs)).db.createdTimes := by
    rw [machine.run_append]
    exact machine.runFrom_rel (P := Sound)
      (R := fun s s' => s.db.createdTimes <+: s'.db.createdTimes)
      (fun _ => List.prefix_rfl) (fun h₁ h₂ => h₁.trans h₂) (fun _ e h => h.step e)
      (fun _ e h => createdTimes_step h e) (sound_of_reachable (machine.reachable_run es)) fs
  obtain ⟨added, hadded⟩ := htimes
  unfold Database.listed
  rw [taskKeys_eq, taskKeys_eq, ← hadded, List.zipIdx_append, List.map_append]
  exact Paging.mergeSort_sublist (listedBefore_trans taskId) (listedBefore_total taskId)
    (listedBefore_antisymm taskId) _ _

/-! ## Turning the pages -/

variable (taskId)

/-- What a request for a page shows, the first being page 1. -/
def shownPage (db : Database) (pageSize page : ℕ) : List RunId :=
  match listTasksSchema (some (toString page)) (some (toString pageSize)) with
  | some query => (listTasks taskId db query).items
  | none => []

variable {taskId}

/-- A request within the safe offsets is accepted. -/
theorem listTasksSchema_toString {pageSize page : ℕ} (hpage : 0 < page)
    (hle : page ≤ StringNumber.maxSafeInteger) (hsize : 0 < pageSize ∧ pageSize ≤ 100)
    (hsafe : (page - 1) * pageSize ≤ StringNumber.maxSafeInteger) :
    listTasksSchema (some (toString page)) (some (toString pageSize)) =
      some ⟨page, pageSize, hpage, hsize, hsafe⟩ := by
  have hmax : (100 : ℕ) ≤ StringNumber.maxSafeInteger := by decide
  unfold listTasksSchema
  simp only [Option.getD_some, positiveIntegerQuery_toString hpage hle,
    positiveIntegerQuery_toString hsize.1 (hsize.2.trans hmax), Option.bind_eq_bind,
    Option.bind_some]
  rw [dif_pos ⟨⟨hpage, hsize.1⟩, hsize.2, hsafe⟩]

theorem shownPage_eq (db : Database) {pageSize page : ℕ} (hpage : 0 < page)
    (hle : page ≤ StringNumber.maxSafeInteger) (hsize : 0 < pageSize ∧ pageSize ≤ 100)
    (hsafe : (page - 1) * pageSize ≤ StringNumber.maxSafeInteger) :
    shownPage taskId db pageSize page =
      (Paging.page pageSize (page - 1) (db.listed taskId)).map Prod.fst := by
  unfold shownPage
  rw [listTasksSchema_toString hpage hle hsize hsafe]
  rfl

/-- The version a page is read in: `between` are the events before each
read, and after the one before it. -/
def readAt (between : ℕ → List Event) (p : ℕ) : Database :=
  (machine.run ((List.range (p + 1)).flatMap between)).db

theorem readAt_sublist (between : ℕ → List Event) (p : ℕ) :
    ((readAt between p).listed taskId).Sublist ((readAt between (p + 1)).listed taskId) := by
  unfold readAt
  rw [List.range_succ (n := p + 1), List.flatMap_append]
  exact listed_sublist taskId _ _

/-- **Turning the pages misses no task.** Pages of a size are asked for one
after the other, while tasks are created, runs go on and reviewers decide in
between. Where the last one read reaches the end of the list, every task
that was there at the first read has been shown; and if there was nothing
in between, each was shown once. -/
theorem task_pages_cover (taskId : RunId ↪ κ) (between : ℕ → List Event) {pageSize limit : ℕ}
    (hsize : 0 < pageSize ∧ pageSize ≤ 100) (hlimit : 0 < limit)
    (hsafe : limit * pageSize ≤ StringNumber.maxSafeInteger)
    (hend : (readAt between (limit - 1)).runs.length ≤ limit * pageSize) :
    let shown := Paging.scan pageSize
      (fun p => shownPage taskId (readAt between p) pageSize (p + 1)) limit 0
    (∀ id < (readAt between 0).runs.length, id ∈ shown) ∧
      ((∀ p, 0 < p → between p = []) → shown.Nodup ∧
        ∀ id, id ∈ shown ↔ id < (readAt between 0).runs.length) := by
  intro shown
  have hshown : shown = (Paging.scan pageSize
      (fun p => Paging.page pageSize p ((readAt between p).listed taskId)) limit 0).map
        Prod.fst := by
    rw [← Paging.map_scan]
    refine Paging.scan_congr fun p hp _ => ?_
    have hall : (p + 1) * pageSize ≤ limit * pageSize := Nat.mul_le_mul_right _ (by omega)
    have hbefore : p * pageSize ≤ limit * pageSize := Nat.mul_le_mul_right _ (by omega)
    exact shownPage_eq _ (Nat.succ_pos p)
      ((Nat.le_mul_of_pos_right _ hsize.1).trans (hall.trans hsafe)) hsize (hbefore.trans hsafe)
  have hlisted : ∀ id < (readAt between 0).runs.length,
      ∃ key ∈ (readAt between 0).listed taskId, key.1 = id := by
    intro id hid
    exact ⟨⟨id, _⟩, mem_listed.mpr ⟨_, List.getElem?_eq_getElem hid, rfl⟩, rfl⟩
  refine ⟨fun id hid => ?_, fun hquiet => ?_⟩
  · obtain ⟨key, hkey, rfl⟩ := hlisted id hid
    rw [hshown]
    refine List.mem_map_of_mem ?_
    refine Paging.mem_scan_of_grows (readAt_sublist between) hlimit (fun q hq => ?_) hkey
    rw [length_listed, show q = limit - 1 by omega]
    exact hend
  · -- every page is of the same list
    have hsame : ∀ p, readAt between p = readAt between 0 := by
      intro p
      have hnone : (List.range (p + 1)).flatMap between = between 0 := by
        rw [List.range_succ_eq_map, List.flatMap_cons, List.flatMap_map]
        rw [List.flatMap_eq_nil_iff.mpr fun q _ => hquiet (q + 1) (Nat.succ_pos q),
          List.append_nil]
      unfold readAt
      rw [hnone, List.range_one, List.flatMap_singleton]
    have hscan : shown = ((readAt between 0).listed taskId).map Prod.fst := by
      rw [hshown]
      simp only [hsame]
      have hend : ((readAt between 0).listed taskId).length ≤ limit * pageSize := by
        rw [length_listed, ← hsame (limit - 1)]
        exact hend
      rw [Paging.scan_page, Nat.zero_mul, List.drop_zero, List.take_of_length_le hend]
    rw [hscan]
    refine ⟨?_, fun id => ⟨fun hid => ?_, fun hid => ?_⟩⟩
    · exact nodup_listed _
    · obtain ⟨key, hkey, rfl⟩ := List.mem_map.mp hid
      obtain ⟨r, hr, -⟩ := mem_listed.mp hkey
      exact (List.getElem?_eq_some_iff.mp hr).1
    · obtain ⟨key, hkey, rfl⟩ := hlisted id hid
      exact List.mem_map_of_mem hkey

end

/-- Two tasks are there when the first page is read, and one more is created
before the second. -/
def createdBetween : ℕ → List Event
  | 0 => [.confirm (envAt 0) (smallConfirm "first") 0, .confirm (envAt 1) (smallConfirm "second") 1]
  | 1 => [.confirm (envAt 2) (smallConfirm "third") 2]
  | _ => []

theorem task_pages_cover_of_created :
    (readAt createdBetween 0).runs.length = 2 ∧ (readAt createdBetween 2).runs.length = 3 ∧
      ∀ id < 2, id ∈ Paging.scan 1 (fun p =>
        shownPage (Function.Embedding.refl RunId) (readAt createdBetween p) 1 (p + 1)) 3 0 :=
  ⟨by decide, by decide, (@task_pages_cover RunId _ (Function.Embedding.refl RunId) createdBetween
    1 3 (by decide) (by decide) (by decide) (by decide)).1⟩

end ControlPlane

end AgentReliability
