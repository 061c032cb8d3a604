import AgentReliability.ControlPlane.Writes
/-!
# A key is confirmed once

`TaskDraftService.confirm` looks its key up twice: before the slow work
with the repository and the code host, and again under the advisory lock
of the key. The first lookup may be arbitrarily old. Seen by its keys, the
task table only grows, so what an old lookup found is still there, and
what the second lookup did not find nobody has confirmed.
-/

namespace AgentReliability

namespace ControlPlane

/-! ## The task table, by its keys -/

/-- The columns a confirmation is found and compared by. -/
def RunRows.mark (r : RunRows) : Option String × Option String :=
  (r.task.confirmationKey, r.task.snapshotDigest)

def Database.marks (db : Database) : List (Option String × Option String) :=
  db.runs.map RunRows.mark

/-- The keys that were confirmed, in the order of the table. -/
def Database.keys (db : Database) : List String := db.marks.filterMap (·.1)

section Marks

variable {l l' : List (Option String × Option String)} {key : String} {i : ℕ}

/-- The unique lookup of a key. -/
def findKey (l : List (Option String × Option String)) (key : String) : Option RunId :=
  l.findIdx? fun m => m.1 = some key

theorem mark_of_findKey (h : findKey l key = some i) : ∃ m, l[i]? = some m ∧ m.1 = some key := by
  unfold findKey at h
  obtain ⟨hlt, hm, -⟩ := List.findIdx?_eq_some_iff_getElem.mp h
  exact ⟨l[i], List.getElem?_eq_getElem hlt, by simpa using hm⟩

/-- **A key that was found is found in every longer table**, at the same
place. -/
theorem findKey_append (h : findKey l key = some i) : findKey (l ++ l') key = some i := by
  unfold findKey at h ⊢
  rw [List.findIdx?_append, h]
  rfl

theorem mark_of_prefix {m : Option String × Option String} (h : l <+: l') (hm : l[i]? = some m) :
    l'[i]? = some m := by
  obtain ⟨rest, rfl⟩ := h
  rw [List.getElem?_append_left (List.getElem?_eq_some_iff.mp hm).1]
  exact hm

/-- Every key is found where it is stored, so no key is stored twice. -/
def Indexed (l : List (Option String × Option String)) : Prop :=
  ∀ (i : ℕ) (m : Option String × Option String) (key : String),
    l[i]? = some m → m.1 = some key → findKey l key = some i

theorem Indexed.concat {m : Option String × Option String} (h : Indexed l)
    (hm : ∀ key ∈ m.1, findKey l key = none) : Indexed (l ++ [m]) := by
  intro i x key hx hkey
  rcases Nat.lt_or_ge i l.length with hlt | hge
  · rw [List.getElem?_append_left hlt] at hx
    exact findKey_append (h i x key hx hkey)
  · rw [List.getElem?_append_right hge] at hx
    obtain ⟨hone, rfl⟩ := List.getElem?_eq_some_iff.mp hx
    rw [List.length_singleton] at hone
    have hi : i = l.length := by omega
    simp only [List.getElem_singleton] at hkey
    have hnone := hm key hkey
    unfold findKey at hnone ⊢
    rw [List.findIdx?_append, hnone, hi]
    simp [List.findIdx?_cons, hkey]

end Marks

theorem confirmedAs_eq (runs : List RunRows) (key : String) :
    confirmedAs runs key = findKey (runs.map RunRows.mark) key := by
  unfold confirmedAs findKey
  rw [List.findIdx?_map]
  rfl

theorem snapshotDigest_eq {runs : List RunRows} {i : ℕ} {digest : String} :
    runs[i]?.bind (·.task.snapshotDigest) = some digest ↔
      ∃ m, (runs.map RunRows.mark)[i]? = some m ∧ m.2 = some digest := by
  rw [List.getElem?_map]
  cases runs[i]? with
  | none => simp
  | some r => simp [RunRows.mark]

/-! ## What a confirmation answers -/

/-- **A confirmation that returns** found the key with the digest of its
own input, or found it in neither lookup and creates the rows. -/
theorem confirm_ok {ctx : Context} {seen runs : List RunRows} {input : ConfirmInput}
    {c : Confirmed} (h : confirm ctx seen runs input = .ok c) :
    (∃ (prior : RunId) (table : List RunRows), c = .again prior ∧ (table = seen ∨ table = runs) ∧
        confirmedAs table input.key = some prior ∧
        table[prior]?.bind (·.task.snapshotDigest) =
          some (ctx.digestSnapshot input.draft.snapshot)) ∨
      (c = .created (snapshotRows ctx input.draft.snapshot input.key) ∧
        confirmedAs runs input.key = none) := by
  have hagain : ∀ {table : List RunRows} {prior : RunId} {message : String},
      Confirmed.again <$> confirmAgain ctx.toEnv table input prior message = .ok c →
      c = .again prior ∧ table[prior]?.bind (·.task.snapshotDigest) =
        some (ctx.digestSnapshot input.draft.snapshot) := by
    intro table prior message hc
    rw [map_eq_pure_bind, bind_eq_ok] at hc
    obtain ⟨id, hid, hc⟩ := hc
    simp only [confirmAgain, bind_eq_ok, require_eq_ok, pure_eq_ok] at hid hc
    obtain ⟨-, hdigest, rfl⟩ := hid
    exact ⟨hc.symm, hdigest⟩
  simp only [confirm, bind_eq_ok] at h
  obtain ⟨-, -, h⟩ := h
  split at h
  · rename_i prior hprior
    obtain ⟨hc, hdigest⟩ := hagain h
    exact .inl ⟨prior, seen, hc, .inl rfl, hprior, hdigest⟩
  · simp only [bind_eq_ok] at h
    obtain ⟨-, -, -, -, -, -, h⟩ := h
    split at h
    · rename_i prior hprior
      obtain ⟨hc, hdigest⟩ := hagain h
      exact .inl ⟨prior, runs, hc, .inr rfl, hprior, hdigest⟩
    · rename_i hnone
      exact .inr ⟨(pure_eq_ok.mp h).symm, hnone⟩

/-- What a call of `confirm` answers: the run it made or found. There is
none when the version of its first lookup is still to come. -/
def confirmAnswer? (s : State) (env : Env) (input : ConfirmInput) (readAt : ℕ) :
    Option (Except ServiceError RunId) :=
  s.versions[readAt]?.map fun seen => do
    match ← confirm (s.creation env) seen.runs s.db.runs input with
    | .again run => pure run
    | .created _ => pure s.db.runs.length

/-- The rows a confirmation made, under its key and the id of their run. -/
structure Confirmation where
  key : String
  runId : RunId
  rows : RunRows

/-- The confirmation an event makes. -/
def Event.confirmation (s : State) : Event → List Confirmation
  | .confirm env input readAt =>
    ((confirmed? s env input readAt).map fun rows => ⟨input.key, s.db.runs.length, rows⟩).toList
  | _ => []

/-- The confirmations made along a run of the machine. -/
def confirmations : State → List Event → List Confirmation
  | _, [] => []
  | s, e :: es => e.confirmation s ++ confirmations (step s e) es

/-! ## The table only grows -/

theorem marks_set {db : Database} {id : RunId} {r r' : RunRows} (hr : db.runs[id]? = some r)
    (h : r'.mark = r.mark) : (db.runs.set id r').map RunRows.mark = db.marks := by
  refine List.ext_getElem? fun j => ?_
  rw [List.getElem?_map, List.getElem?_set, Database.marks, List.getElem?_map]
  split
  · rename_i hj
    subst hj
    rw [if_pos (List.getElem?_eq_some_iff.mp hr).1, hr, Option.map_some, Option.map_some, h]
  · rfl

theorem SameInput.mark {r r' : RunRows} (h : SameInput r r') : r'.mark = r.mark := by
  unfold RunRows.mark
  rw [h.task]

theorem createTask_mark {ctx : Context} {runs : List RunRows} {input : CreateTaskInput}
    {r : RunRows} (h : createTask ctx runs input = .ok r) : r.mark = (none, none) := by
  simp only [createTask, bind_eq_ok] at h
  obtain ⟨input, -, fixture, -, baseCommit, -, -, -, r₁, h₁, command, -, h₂⟩ := h
  have hlast := (Writes.transitionRun h₂).sameInput.mark
  have hfirst := (Writes.transitionTask h₁).sameInput.mark
  exact hlast.trans hfirst

/-- A confirmation that creates rows found its key under the lock nowhere. -/
theorem confirmed_some {s : State} {env : Env} {input : ConfirmInput} {readAt : ℕ}
    {rows : RunRows} (h : confirmed? s env input readAt = some rows) :
    rows = snapshotRows (s.creation env) input.draft.snapshot input.key ∧
      findKey s.db.marks input.key = none := by
  unfold confirmed? at h
  split at h
  · exact absurd h (by simp)
  · split at h
    · rename_i created hconfirm
      obtain rfl := Option.some.inj h
      rcases confirm_ok hconfirm with ⟨prior, table, hc, -⟩ | ⟨hc, hnone⟩
      · exact absurd hc (by simp)
      · rw [confirmedAs_eq] at hnone
        exact ⟨Confirmed.created.inj hc, hnone⟩
    · exact absurd h (by simp)

/-- **What one event adds to the table**: a confirmation its key, and
nothing else any. -/
theorem marks_step {s : State} (hs : Sound s) (e : Event) :
    ∃ added, (step s e).db.marks = s.db.marks ++ added ∧
      (∀ m ∈ added, ∀ key ∈ m.1, findKey s.db.marks key = none) ∧ added.length ≤ 1 ∧
      added.filterMap (·.1) = (e.confirmation s).map (·.key) := by
  have hsame : (e.confirmation s = []) → (step s e).db.marks = s.db.marks →
      ∃ added, (step s e).db.marks = s.db.marks ++ added ∧
        (∀ m ∈ added, ∀ key ∈ m.1, findKey s.db.marks key = none) ∧ added.length ≤ 1 ∧
        added.filterMap (·.1) = (e.confirmation s).map (·.key) := by
    intro hnone hmarks
    exact ⟨[], by rw [hmarks, List.append_nil], by simp, by simp, by rw [hnone]; rfl⟩
  rcases db_step s e with ⟨db, hc, hdb⟩ | hdb
  · cases e with
    | createTask env input =>
      obtain ⟨r, hr, rfl⟩ := Option.map_eq_some_iff.mp hc
      refine ⟨[r.mark], ?_, ?_, by simp, ?_⟩
      · rw [hdb, Database.marks, List.map_append]
        rfl
      · rw [createTask_mark (toOption_eq_some.mp hr)]
        simp
      · rw [createTask_mark (toOption_eq_some.mp hr)]
        rfl
    | confirm env input readAt =>
      obtain ⟨r, hr, rfl⟩ := Option.map_eq_some_iff.mp hc
      obtain ⟨hrows, hnone⟩ := confirmed_some hr
      have hmark : r.mark.1 = some input.key := by rw [hrows]; rfl
      refine ⟨[r.mark], ?_, ?_, by simp, ?_⟩
      · rw [hdb, Database.marks, List.map_append]
        rfl
      · intro m hm key hkey
        rw [List.mem_singleton.mp hm, hmark, Option.mem_some_iff] at hkey
        rw [← hkey]
        exact hnone
      · simp [Event.confirmation, hr, hmark]
    | request env req =>
      obtain ⟨tx, r, r', hprep, hr, hbody, rfl⟩ := Request.commit_eq_some hc
      refine hsame rfl ?_
      rw [hdb]
      exact marks_set hr ((hs.rowStep_of_prepare hprep hr hbody).sameInput (hs.rows hr).1).mark
    | environment env id token fingerprint imageId log =>
      obtain ⟨db', hdb', rfl⟩ := Option.map_eq_some_iff.mp hc
      rw [toOption_eq_some] at hdb'
      simp only [Database.transact, bind_eq_ok, orThrow_eq_ok, pure_eq_ok] at hdb'
      obtain ⟨r, hr, r', hbody, rfl⟩ := hdb'
      refine hsame rfl ?_
      rw [hdb]
      exact marks_set hr (Writes.environment hbody).sameInput.mark
    | publish => exact absurd hc (by simp [Event.commit?])
  · refine hsame ?_ (congrArg Database.marks hdb)
    cases e with
    | confirm env input readAt =>
      -- A confirmation that made rows would have committed them.
      cases hr : confirmed? s env input readAt with
      | none => simp [Event.confirmation, hr]
      | some rows =>
        have hc : (Event.confirm env input readAt).commit? s =
            some { s.db with runs := s.db.runs ++ [rows] } := by
          simp [Event.commit?, created?, hr]
        have hlen := congrArg (fun db => db.runs.length) hdb
        simp [step, hc, State.commit] at hlen
    | _ => rfl

/-- **The table of every reachable state**: no key is stored twice, and
every older version is the beginning of it. -/
structure TableInv (s : State) : Prop where
  indexed : Indexed s.db.marks
  grown : ∀ v ∈ s.versions, v.marks <+: s.db.marks

theorem tableInv_step {s : State} (hs : Sound s) (h : TableInv s) (e : Event) : TableInv (step s e) := by
  obtain ⟨added, hmarks, hfresh, hone, -⟩ := marks_step hs e
  have hgrown : s.db.marks <+: (step s e).db.marks := by rw [hmarks]; exact List.prefix_append _ _
  refine ⟨?_, fun v hv => ?_⟩
  · rw [hmarks]
    match added, hone, hfresh with
    | [], _, _ => rw [List.append_nil]; exact h.indexed
    | [m], _, hfresh => exact h.indexed.concat (hfresh m List.mem_cons_self)
  · have hcases : v ∈ s.versions ∨ v = (step s e).db := by
      unfold step at hv ⊢
      split at hv
      · simpa [State.versions, State.commit, or_assoc] using hv
      · exact .inl hv
    rcases hcases with hold | rfl
    · exact (h.grown v hold).trans hgrown
    · exact List.prefix_refl _

theorem tableInv_run (es : List Event) : Sound (machine.run es) ∧ TableInv (machine.run es) := by
  refine machine.invariant (P := fun s => Sound s ∧ TableInv s) ⟨Sound.init, ?_⟩
    (fun s e h => ⟨h.1.step e, tableInv_step h.1 h.2 e⟩) (machine.reachable_run es)
  refine ⟨fun i m key hm => absurd hm (by simp [machine, Database.marks]), fun v hv => ?_⟩
  have hinit : v = {} := by simpa [machine, State.versions] using hv
  rw [hinit]
  exact List.prefix_refl _

/-- Later tables begin with the table of now. -/
theorem marks_run (es fs : List Event) :
    (machine.run es).db.marks <+: (machine.run (es ++ fs)).db.marks := by
  induction fs using List.reverseRecOn with
  | nil => simp
  | append_singleton fs e ih =>
    obtain ⟨added, hmarks, -⟩ := marks_step (tableInv_run (es ++ fs)).1 e
    rw [← List.append_assoc, machine.run_concat]
    refine ih.trans ?_
    change _ <+: (step (machine.run (es ++ fs)) e).db.marks
    rw [hmarks]
    exact List.prefix_append _ _

/-- The keys of the table are those of the confirmations made. -/
theorem keys_runFrom {s : State} (hs : Sound s) (es : List Event) :
    (machine.runFrom s es).db.keys = s.db.keys ++ (confirmations s es).map (·.key) := by
  induction es generalizing s with
  | nil => simp [confirmations]
  | cons e es ih =>
    obtain ⟨added, hmarks, -, -, hkeys⟩ := marks_step hs e
    have hstep : (step s e).db.keys = s.db.keys ++ (e.confirmation s).map (·.key) := by
      rw [Database.keys, hmarks, List.filterMap_append, hkeys]
      rfl
    change (machine.runFrom (step s e) es).db.keys = _
    rw [ih (hs.step e), hstep, confirmations, List.map_append, List.append_assoc]

/-- A table where every key is found at its place stores each key once. -/
theorem Indexed.nodup {l : List (Option String × Option String)} (h : Indexed l) :
    (l.filterMap (·.1)).Nodup := by
  rw [List.Nodup, List.pairwise_filterMap, List.pairwise_iff_getElem]
  intro i j hi hj hlt key hkey key' hkey' hsame
  subst hsame
  have hfi := h i l[i] key (List.getElem?_eq_getElem hi) hkey
  have hfj := h j l[j] key (List.getElem?_eq_getElem hj) hkey'
  rw [hfi, Option.some.injEq] at hfj
  omega

/-! ## Confirmation is idempotent -/

/-- **What a call that returned answered**: the place of its key in the
table after it, with the digest of its own input. -/
theorem answer_found {s : State} (hs : TableInv s) {env : Env} {input : ConfirmInput} {readAt : ℕ}
    {id : RunId} (h : confirmAnswer? s env input readAt = some (.ok id)) :
    ∃ m, (step s (.confirm env input readAt)).db.marks[id]? = some m ∧ m.1 = some input.key ∧
      m.2 = some (env.digestSnapshot input.draft.snapshot) := by
  unfold confirmAnswer? at h
  obtain ⟨seen, hseen, h⟩ := Option.map_eq_some_iff.mp h
  rw [bind_eq_ok] at h
  obtain ⟨c, hc, hid⟩ := h
  have hkept : s.db.marks <+: (step s (.confirm env input readAt)).db.marks := by
    unfold step
    split
    · rename_i db hcommit
      obtain ⟨r, -, rfl⟩ := Option.map_eq_some_iff.mp hcommit
      change s.db.marks <+: (s.db.runs ++ [r]).map RunRows.mark
      rw [List.map_append]
      exact List.prefix_append _ _
    · exact List.prefix_refl _
  rcases confirm_ok hc with ⟨prior, table, rfl, htable, hkey, hdigest⟩ | ⟨rfl, -⟩
  · obtain rfl := pure_eq_ok.mp hid
    have hgrown : table.map RunRows.mark <+: s.db.marks := by
      rcases htable with rfl | rfl
      · exact hs.grown seen (List.mem_of_getElem? hseen)
      · exact List.prefix_refl _
    rw [confirmedAs_eq] at hkey
    obtain ⟨m, hm, hmkey⟩ := mark_of_findKey hkey
    obtain ⟨m', hm', hmdigest⟩ := snapshotDigest_eq.mp hdigest
    obtain rfl := Option.some.inj (hm.symm.trans hm')
    exact ⟨m, mark_of_prefix (hgrown.trans hkept) hm, hmkey, hmdigest⟩
  · obtain rfl := pure_eq_ok.mp hid
    have hcommit : (Event.confirm env input readAt).commit? s = some { s.db with
        runs := s.db.runs ++ [snapshotRows (s.creation env) input.draft.snapshot input.key] } := by
      simp [Event.commit?, created?, confirmed?, hseen, hc]
    refine ⟨(snapshotRows (s.creation env) input.draft.snapshot input.key).mark, ?_, rfl, rfl⟩
    unfold step
    rw [hcommit]
    change ((s.db.runs ++ [_]).map RunRows.mark)[s.db.runs.length]? = _
    rw [List.getElem?_map, List.getElem?_concat_length]
    rfl

theorem getElem?_marks {db : Database} {i : ℕ} {r : RunRows} (hr : db.runs[i]? = some r) :
    db.marks[i]? = some r.mark := by
  rw [Database.marks, List.getElem?_map, hr]
  rfl

/-- A key that is stored is the key of one place. -/
theorem TableInv.key_iff {s : State} (h : TableInv s) {id id' : RunId} {m : Option String × Option String}
    {r' : RunRows} {key : String} (hm : s.db.marks[id]? = some m) (hkey : m.1 = some key)
    (hr' : s.db.runs[id']? = some r') : r'.task.confirmationKey = some key ↔ id' = id := by
  have hfound := h.indexed id m key hm hkey
  constructor
  · intro hkey'
    have hfound' := h.indexed id' r'.mark key (getElem?_marks hr') hkey'
    exact Option.some.inj (hfound'.symm.trans hfound)
  · rintro rfl
    obtain rfl := Option.some.inj (hm.symm.trans (getElem?_marks hr'))
    exact hkey

/-- The rows a confirmation makes: its task, its run and the command that
starts it. -/
theorem confirmation_rows {s : State} {e : Event} {c : Confirmation} (hc : c ∈ e.confirmation s) :
    c.rows.task.confirmationKey = some c.key ∧
      ∃ m, c.rows.outbox = [m] ∧ m.payload.type = .startRun ∧ m.payload.runId = c.runId := by
  cases e with
  | confirm env input readAt =>
    simp only [Event.confirmation, Option.mem_toList, Option.map_eq_some_iff] at hc
    obtain ⟨rows, hrows, rfl⟩ := hc
    obtain ⟨rfl, -⟩ := confirmed_some hrows
    exact ⟨rfl, _, rfl, rfl, rfl⟩
  | _ => exact absurd hc (by simp [Event.confirmation])

/-- A confirmation that was made is in the table, now and later. -/
theorem confirmation_kept {es : List Event} {c : Confirmation}
    (hc : c ∈ confirmations machine.init es) :
    (∃ s e, c ∈ Event.confirmation s e) ∧
      ∃ m, (machine.run es).db.marks[c.runId]? = some m ∧ m.1 = some c.key := by
  induction es using List.reverseRecOn with
  | nil => exact absurd hc (by simp [confirmations])
  | append_singleton es e ih =>
    have hsplit : ∀ (s : State) (xs : List Event),
        confirmations s (xs ++ [e]) = confirmations s xs ++ e.confirmation (machine.runFrom s xs) := by
      intro s xs
      induction xs generalizing s with
      | nil => simp [confirmations]
      | cons x xs ihx =>
        rw [List.cons_append, confirmations, ihx, confirmations, List.append_assoc]
        rfl
    rw [hsplit, List.mem_append] at hc
    rcases hc with hc | hc
    · obtain ⟨horigin, m, hm, hkey⟩ := ih hc
      exact ⟨horigin, m, mark_of_prefix (marks_run es [e]) hm, hkey⟩
    · refine ⟨⟨_, e, hc⟩, ?_⟩
      rw [machine.run_concat]
      cases e with
      | confirm env input readAt =>
        simp only [Event.confirmation, Option.mem_toList, Option.map_eq_some_iff] at hc
        obtain ⟨rows, hrows, rfl⟩ := hc
        obtain ⟨hrows', -⟩ := confirmed_some hrows
        have hcommit : (Event.confirm env input readAt).commit? (machine.run es) =
            some { (machine.run es).db with runs := (machine.run es).db.runs ++ [rows] } := by
          simp only [Event.commit?, created?]
          rw [show confirmed? (machine.run es) env input readAt = some rows from hrows]
          rfl
        refine ⟨rows.mark, ?_, by rw [hrows']; rfl⟩
        change (step (machine.run es) _).db.marks[(machine.run es).db.runs.length]? = _
        unfold step
        rw [hcommit]
        refine getElem?_marks ?_
        exact List.getElem?_concat_length
      | _ => exact absurd hc (by simp [Event.confirmation])

/-- **Confirmation is idempotent.** In every interleaving of confirmations
with all other events:

* each key is confirmed at most once, and the keys in the task table are
  the keys of the confirmations that were made;
* a confirmation is made with its task, its run and one command that
  starts the run, in one commit, and a call makes one or writes nothing;
* a call that returns answers the run of the one task with its key, from
  then on;
* a call whose snapshot has another digest than the task with its key does
  not return, and changes nothing. -/
theorem confirm_once (es : List Event) :
    ((confirmations machine.init es).map (·.key)).Nodup ∧
    (machine.run es).db.runs.filterMap (·.task.confirmationKey) =
      (confirmations machine.init es).map (·.key) ∧
    (∀ c ∈ confirmations machine.init es,
      c.rows.task.confirmationKey = some c.key ∧
      (∃ m, c.rows.outbox = [m] ∧ m.payload.type = .startRun ∧ m.payload.runId = c.runId) ∧
      ∃ r : RunRows, (machine.run es).db.runs[c.runId]? = some r ∧
        r.task.confirmationKey = some c.key) ∧
    ∀ (env : Env) (input : ConfirmInput) (readAt : ℕ),
      (step (machine.run es) (.confirm env input readAt)).db.runs = (machine.run es).db.runs ++
        ((Event.confirm env input readAt).confirmation (machine.run es)).map (·.rows) ∧
      (∀ id, confirmAnswer? (machine.run es) env input readAt = some (.ok id) →
        ∀ fs, (∃ r : RunRows,
            (machine.run (es ++ .confirm env input readAt :: fs)).db.runs[id]? = some r) ∧
          ∀ (id' : RunId) (r' : RunRows),
            (machine.run (es ++ .confirm env input readAt :: fs)).db.runs[id']? = some r' →
            (r'.task.confirmationKey = some input.key ↔ id' = id)) ∧
      (∀ (id : RunId) (r : RunRows), (machine.run es).db.runs[id]? = some r →
        r.task.confirmationKey = some input.key →
        r.task.snapshotDigest ≠ some (env.digestSnapshot input.draft.snapshot) →
        (∀ id', confirmAnswer? (machine.run es) env input readAt ≠ some (.ok id')) ∧
          step (machine.run es) (.confirm env input readAt) = machine.run es) := by
  obtain ⟨hsound, hkeys⟩ := tableInv_run es
  have htable : (machine.run es).db.keys = (confirmations machine.init es).map (·.key) :=
    keys_runFrom Sound.init es
  have hfilter : (machine.run es).db.runs.filterMap (·.task.confirmationKey) =
      (machine.run es).db.keys := by
    rw [Database.keys, Database.marks, List.filterMap_map]
    rfl
  refine ⟨?_, hfilter.trans htable, fun c hc => ?_, fun env input readAt => ⟨?_, ?_, ?_⟩⟩
  · rw [← htable]
    exact hkeys.indexed.nodup
  · obtain ⟨⟨s, e, horigin⟩, m, hm, hkey⟩ := confirmation_kept hc
    obtain ⟨htask, hsent⟩ := confirmation_rows horigin
    refine ⟨htask, hsent, ?_⟩
    rw [Database.marks, List.getElem?_map, Option.map_eq_some_iff] at hm
    obtain ⟨r, hr, rfl⟩ := hm
    exact ⟨r, hr, hkey⟩
  · unfold step
    cases hrows : confirmed? (machine.run es) env input readAt with
    | none => simp [Event.commit?, created?, Event.confirmation, hrows]
    | some rows => simp [Event.commit?, created?, Event.confirmation, hrows, State.commit]
  · intro id hid fs
    obtain ⟨m, hm, hkey, -⟩ := answer_found hkeys hid
    have hafter := marks_run (es ++ [.confirm env input readAt]) fs
    rw [List.append_assoc, machine.run_concat] at hafter
    have hm' := mark_of_prefix hafter hm
    obtain ⟨-, hlater⟩ := tableInv_run (es ++ .confirm env input readAt :: fs)
    refine ⟨?_, fun id' r' hr' => hlater.key_iff hm' hkey hr'⟩
    have hmem := (List.getElem?_eq_some_iff.mp hm').1
    simp only [Database.marks, List.length_map] at hmem
    exact ⟨_, List.getElem?_eq_getElem hmem⟩
  · intro id r hr hkey hdigest
    have hmark := getElem?_marks hr
    -- Whatever the call found is the row with its key, and its digest is another.
    have hno : ∀ id', confirmAnswer? (machine.run es) env input readAt ≠ some (.ok id') := by
      intro id' hid'
      obtain ⟨m, hm, hmkey, hmdigest⟩ := answer_found hkeys hid'
      obtain ⟨added, hmarks, -⟩ := marks_step hsound (.confirm env input readAt)
      have hstep := (tableInv_step hsound hkeys (.confirm env input readAt)).indexed
      have hmark' : (step (machine.run es) (.confirm env input readAt)).db.marks[id]? =
          some r.mark := mark_of_prefix (by rw [hmarks]; exact List.prefix_append _ _) hmark
      have hsame : id' = id := Option.some.inj
        ((hstep _ _ _ hm hmkey).symm.trans (hstep _ _ _ hmark' hkey))
      subst hsame
      obtain rfl := Option.some.inj (hm.symm.trans hmark')
      exact hdigest hmdigest
    refine ⟨hno, ?_⟩
    have hnone : confirmed? (machine.run es) env input readAt = none := by
      cases hrows : confirmed? (machine.run es) env input readAt with
      | none => rfl
      | some rows =>
        have hfree := (confirmed_some hrows).2
        rw [hkeys.indexed id r.mark input.key hmark hkey] at hfree
        exact absurd hfree (by simp)
    unfold step
    rw [show (Event.confirm env input readAt).commit? (machine.run es) = none by
      simp [Event.commit?, created?, hnone]]
    simp [Event.published]

/-- A confirmation of another snapshot under a key. -/
def otherConfirm (key : String) : ConfirmInput :=
  { smallConfirm key with draft := {
    snapshot := { smallSnapshot with title := "other" }, revision := 1, expiresAt := 1000000 } }

/-- After one confirmation, the same call answers its run though the draft
has expired, and a call with another snapshot changes nothing, also when
its first lookup found no task. -/
theorem confirm_once_of_small :
    (∃ r : RunRows, (machine.run [.confirm (envAt 0) (smallConfirm "key") 0,
      .confirm (envAt 2000000) (smallConfirm "key") 1]).db.runs[0]? = some r) ∧
    step (machine.run [.confirm (envAt 0) (smallConfirm "key") 0])
      (.confirm (envAt 1) (otherConfirm "key") 0) =
        machine.run [.confirm (envAt 0) (smallConfirm "key") 0] := by
  obtain ⟨r, hr⟩ : ∃ r : RunRows,
    (machine.run [.confirm (envAt 0) (smallConfirm "key") 0]).db.runs[0]? = some r := ⟨_, rfl⟩
  have hcolumns : ((machine.run [.confirm (envAt 0) (smallConfirm "key") 0]).db.runs[0]?).map
      RunRows.mark = some (some "key", some "bug") := by decide
  rw [hr, Option.map_some, Option.some.injEq, RunRows.mark, Prod.mk.injEq] at hcolumns
  have hcalls := (confirm_once [.confirm (envAt 0) (smallConfirm "key") 0]).2.2.2
  refine ⟨((hcalls (envAt 2000000) (smallConfirm "key") 1).2.1 0 rfl []).1, ?_⟩
  refine ((hcalls (envAt 1) (otherConfirm "key") 0).2.2 0 r hr hcolumns.1 ?_).2
  rw [hcolumns.2]
  decide

end ControlPlane

end AgentReliability
