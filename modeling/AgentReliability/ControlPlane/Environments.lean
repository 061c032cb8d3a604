import AgentReliability.ControlPlane.Untouched
import Mathlib.Data.List.Nodup
/-!
# The environment of a run is pinned

A worker reports the image it has built for the fingerprint of its
environment. The first report of a fingerprint registers the image, for all
runs; the first report of a run pins its image, for all of its attempts. A
later attempt is told both when it reports a phase, and works on what they
name.
-/

namespace AgentReliability

namespace ControlPlane

variable {ctx : Context} {r r' : RunRows}

/-! ## The registry of images -/

/-- **The report finds the fingerprint, or registers it.** -/
theorem upsertEnvironment_spec (db : Database) (fingerprint imageId log : String) :
    let u := db.upsertEnvironment fingerprint imageId log
    db.environments <+: u.2.2 ∧
      (∃ v, u.2.2[u.1]? = some v ∧ v.fingerprint = fingerprint ∧ u.2.1 = v.imageId) ∧
      ((db.environments.map (·.fingerprint)).Nodup → (u.2.2.map (·.fingerprint)).Nodup) := by
  unfold Database.upsertEnvironment
  split
  · next k hk =>
    obtain ⟨hlt, hfound, -⟩ := List.findIdx?_eq_some_iff_getElem.mp hk
    refine ⟨List.prefix_rfl, ⟨db.environments[k], ?_, of_decide_eq_true hfound, ?_⟩, id⟩
    · exact List.getElem?_eq_getElem hlt
    · show (db.environments[k]?).bind _ = _
      rw [List.getElem?_eq_getElem hlt]
      rfl
  · next hnone =>
    refine ⟨List.prefix_append _ _, ⟨_, List.getElem?_concat_length, rfl, rfl⟩, fun hunique => ?_⟩
    show ((db.environments ++ [_]).map _).Nodup
    rw [List.map_append, List.nodup_append]
    refine ⟨hunique, List.nodup_singleton _, fun a ha b hb => ?_⟩
    obtain ⟨v, hv, rfl⟩ := List.mem_map.mp ha
    rw [List.mem_singleton.mp hb]
    exact of_decide_eq_false (List.findIdx?_eq_none_iff.mp hnone v hv)

/-- A registered row stays where it is. -/
theorem getElem?_of_prefix {α : Type*} {l l' : List α} (h : l <+: l') {k : ℕ} {a : α}
    (ha : l[k]? = some a) : l'[k]? = some a := by
  obtain ⟨rest, rfl⟩ := h
  rw [List.getElem?_append_left (List.getElem?_eq_some_iff.mp ha).1]
  exact ha

/-- A fingerprint has one row. -/
theorem eq_of_fingerprint {rows : List EnvironmentVersion}
    (h : (rows.map (·.fingerprint)).Nodup) {v w : EnvironmentVersion} (hv : v ∈ rows)
    (hw : w ∈ rows) (hsame : v.fingerprint = w.fingerprint) : v = w :=
  List.inj_on_of_nodup_map h hv hw hsame

/-! ## The pin of a run -/

/-- A request leaves the pin of the run it writes. -/
theorem samePin_of_request {s : State} {env : Env} {req : Request} {tx : Transaction}
    (hto : req.GoesTo s env tx)
    (hbody : tx.body (s.db.context env tx.runId) r = .ok r') : SamePin r r' := by
  cases hto with
  | claim => exact claim_samePin hbody
  | heartbeat => exact heartbeat_samePin hbody
  | complete => exact complete_samePin hbody
  | saveCheckpoint => exact (saveCheckpoint_untouched hbody).pin
  | leaseExpired => exact leaseExpired_samePin hbody
  | phase => exact (phase_untouched hbody).pin
  | pause => exact pause_samePin hbody
  | @pauseRun runId readAt i a =>
    have h : ControlPlane.pause (s.db.context env runId) i a.leaseToken "PAUSED_BY_USER" none r =
        .ok r' := hbody
    exact pause_samePin h
  | cancel => exact cancel_samePin hbody
  | resume => exact (resume_untouched hbody).pin
  | reserve => exact (reserve_untouched hbody).pin
  | settle => exact (settle_untouched hbody).pin
  | ingest => exact (ingest_untouched hbody).pin
  | @markPublished runId message =>
    have h : ControlPlane.markPublished (s.db.context env runId) message r = .ok r' := hbody
    unfold ControlPlane.markPublished at h
    exact (updateMessage_untouched h).pin
  | @countFailure runId message =>
    have h : ControlPlane.countFailure message r = .ok r' := hbody
    unfold ControlPlane.countFailure at h
    exact (updateMessage_untouched h).pin
  | @republish runId message =>
    have h : ControlPlane.republish message r = .ok r' := hbody
    unfold ControlPlane.republish at h
    exact (updateMessage_untouched h).pin

/-- What a report that commits has checked. -/
theorem environment_ok {i environmentId : ℕ} {token : Option LeaseToken} {imageId : String}
    {resolved : Option String}
    (h : ControlPlane.environment ctx i token imageId environmentId resolved r = .ok r') :
    (∀ pinned ∈ r.run.imageId, pinned = "" ∨ pinned = imageId) ∧ resolved = some imageId ∧
      r'.run.environmentId = some environmentId ∧ r'.run.imageId = some imageId := by
  unfold ControlPlane.environment at h
  obtain ⟨-, -, -, hop⟩ := withLease_running h
  simp only [bind_eq_ok, require_eq_ok, pure_eq_ok] at hop
  obtain ⟨-, hpinned, -, hresolved, rfl⟩ := hop
  exact ⟨hpinned, hresolved, rfl, rfl⟩

/-- A new run has no environment. -/
theorem Creates.imageId (h : Creates ctx r) : r.run.imageId = none := by
  cases h with
  | createTask h =>
    simp only [ControlPlane.createTask, bind_eq_ok] at h
    obtain ⟨input, -, fixture, -, baseCommit, -, -, -, queued, hqueued, command, -, hrun⟩ := h
    rw [(transitionRun_untouched hrun).pin.imageId]
    exact (transitionTask_untouched hqueued).pin.imageId
  | confirm h =>
    subst h
    rfl

/-! ## What is on file -/

/-- **Each fingerprint has one row, and each pin one of the rows.** -/
structure PinInv (db : Database) : Prop where
  unique : (db.environments.map (·.fingerprint)).Nodup
  registered : ∀ r ∈ db.runs, ∀ image, r.run.imageId = some image → ∃ k v,
    r.run.environmentId = some k ∧ db.environments[k]? = some v ∧ v.imageId = some image

/-- **What stays**: the rows of the registry, and the pins. -/
structure PinLater (db db' : Database) : Prop where
  environments : db.environments <+: db'.environments
  pins : ∀ (id : RunId) (r : RunRows), db.runs[id]? = some r → ∃ r', db'.runs[id]? = some r' ∧
    ∀ image, r.run.imageId = some image → image ≠ "" → r'.run.imageId = some image

theorem PinLater.refl (db : Database) : PinLater db db :=
  ⟨List.prefix_rfl, fun _ r hr => ⟨r, hr, fun _ himage _ => himage⟩⟩

theorem PinLater.trans {a b c : Database} (h₁ : PinLater a b) (h₂ : PinLater b c) :
    PinLater a c := by
  refine ⟨h₁.environments.trans h₂.environments, fun id r hr => ?_⟩
  obtain ⟨r₁, hr₁, hkept₁⟩ := h₁.pins id r hr
  obtain ⟨r₂, hr₂, hkept₂⟩ := h₂.pins id r₁ hr₁
  exact ⟨r₂, hr₂, fun image himage hne => hkept₂ image (hkept₁ image himage hne) hne⟩

/-- A run is created. -/
theorem PinInv.created {db : Database} (h : PinInv db) (hnew : r.run.imageId = none) :
    PinInv { db with runs := db.runs ++ [r] } ∧ PinLater db { db with runs := db.runs ++ [r] } := by
  refine ⟨⟨h.unique, fun x hx image himage => ?_⟩, List.prefix_rfl, fun id x hx => ?_⟩
  · rcases List.mem_append.mp hx with hold | hlast
    · exact h.registered x hold image himage
    · rw [List.mem_singleton.mp hlast, hnew] at himage
      exact absurd himage (by simp)
  · exact ⟨x, getElem?_of_prefix (List.prefix_append _ _) hx, fun _ himage _ => himage⟩

/-- The rows of one run are written, beside a registry that has only
grown. -/
theorem PinInv.wrote {db : Database} (h : PinInv db) {id : RunId} (hr : db.runs[id]? = some r)
    {rows : List EnvironmentVersion} (hrows : db.environments <+: rows)
    (hunique : (rows.map (·.fingerprint)).Nodup)
    (hkept : ∀ image, r.run.imageId = some image → image ≠ "" → r'.run.imageId = some image)
    (hpin : ∀ image, r'.run.imageId = some image → ∃ k v, r'.run.environmentId = some k ∧
      rows[k]? = some v ∧ v.imageId = some image) :
    PinInv { db with runs := db.runs.set id r', environments := rows } ∧
      PinLater db { db with runs := db.runs.set id r', environments := rows } := by
  refine ⟨⟨hunique, fun x hx image himage => ?_⟩, hrows, fun j x hx => ?_⟩
  · rcases List.mem_or_eq_of_mem_set hx with hold | rfl
    · obtain ⟨k, v, hk, hv, hvimage⟩ := h.registered x hold image himage
      exact ⟨k, v, hk, getElem?_of_prefix hrows hv, hvimage⟩
    · exact hpin image himage
  · by_cases hj : id = j
    · subst hj
      obtain rfl := Option.some.inj (hr.symm.trans hx)
      exact ⟨r', List.getElem?_set_self (List.getElem?_eq_some_iff.mp hr).1, hkept⟩
    · exact ⟨x, by rw [List.getElem?_set_ne hj]; exact hx, fun _ himage _ => himage⟩

/-- What a report that commits leaves. -/
structure Registers (db db' : Database) (id : RunId) (fingerprint imageId : String) : Prop where
  row : ∃ v ∈ db'.environments, v.fingerprint = fingerprint ∧ v.imageId = some imageId
  pin : ∃ r', db'.runs[id]? = some r' ∧ r'.run.imageId = some imageId

/-- **A report that commits.** -/
theorem PinInv.report {s : State} (h : PinInv s.db) {env : Env} {id : AttemptId}
    {token : Option LeaseToken} {fingerprint imageId log : String} {db : Database}
    (hc : environment? s env id token fingerprint imageId log = some db) :
    (PinInv db ∧ PinLater s.db db) ∧ Registers s.db db id.runId fingerprint imageId := by
  obtain ⟨hgrown, ⟨v, hv, hfingerprint, hresolved⟩, hunique⟩ :=
    upsertEnvironment_spec s.db fingerprint imageId log
  obtain ⟨db', hdb', rfl⟩ := Option.map_eq_some_iff.mp hc
  rw [toOption_eq_some] at hdb'
  simp only [Database.transact, bind_eq_ok, orThrow_eq_ok, pure_eq_ok] at hdb'
  obtain ⟨r, hr, r', hbody, rfl⟩ := hdb'
  obtain ⟨hpinned, himage, hid, hpin⟩ := environment_ok hbody
  have hvimage : v.imageId = some imageId := hresolved.symm.trans himage
  refine ⟨h.wrote hr hgrown (hunique h.unique) ?_ ?_, ⟨v, List.mem_of_getElem? hv, hfingerprint,
    hvimage⟩, r', List.getElem?_set_self (List.getElem?_eq_some_iff.mp hr).1, hpin⟩
  · -- the run is pinned to the image already, or not yet
    intro image hold hne
    rcases hpinned image hold with hempty | rfl
    · exact absurd hempty hne
    · exact hpin
  · intro image hnew
    obtain rfl := Option.some.inj (hpin.symm.trans hnew)
    exact ⟨_, v, hid, hv, hvimage⟩

/-- **What an event commits.** -/
theorem PinInv.commit {s : State} (h : PinInv s.db) {e : Event} {db : Database}
    (hc : e.commit? s = some db) : PinInv db ∧ PinLater s.db db := by
  cases e with
  | createTask env input =>
    obtain ⟨r, hr, rfl⟩ := Option.map_eq_some_iff.mp hc
    exact h.created (Creates.createTask (toOption_eq_some.mp hr)).imageId
  | confirm env input readAt =>
    obtain ⟨r, hr, rfl⟩ := Option.map_eq_some_iff.mp hc
    unfold confirmed? at hr
    split at hr
    · exact absurd hr (by simp)
    · split at hr
      · next rows hconfirm =>
        obtain rfl := Option.some.inj hr
        have hnew : Creates (s.creation env) rows := .confirm (confirm_created hconfirm)
        exact h.created hnew.imageId
      · exact absurd hr (by simp)
  | request env req =>
    obtain ⟨tx, r, r', hprep, hr, hbody, rfl⟩ := Request.commit_eq_some hc
    have hsame := samePin_of_request (Request.goesTo hprep) hbody
    refine h.wrote hr List.prefix_rfl h.unique ?_ ?_
    · intro image himage _
      rw [hsame.imageId]
      exact himage
    · rw [hsame.imageId, hsame.environmentId]
      exact h.registered r (List.mem_of_getElem? hr)
  | environment env id token fingerprint imageId log => exact (h.report hc).1
  | publish => exact absurd hc (by simp [Event.commit?])

/-! ## Over the runs of the machine -/

theorem pinInv_step {s : State} (h : PinInv s.db) (e : Event) :
    PinInv (step s e).db ∧ PinLater s.db (step s e).db := by
  rcases db_step s e with ⟨db, hc, hdb⟩ | hsame
  · rw [hdb]
    exact h.commit hc
  · rw [hsame]
    exact ⟨h, .refl _⟩

theorem pinInv_of_run (es : List Event) : PinInv (machine.run es).db :=
  machine.invariant (P := fun s => PinInv s.db)
    ⟨List.nodup_nil, fun _ hr => absurd hr List.not_mem_nil⟩
    (fun _ e h => (pinInv_step h e).1) (machine.reachable_run es)

/-- What stays, whatever events follow. -/
theorem pinLater_of_run (es fs : List Event) :
    PinLater (machine.run es).db (machine.run (es ++ fs)).db := by
  rw [machine.run_append]
  exact machine.runFrom_rel (P := fun s => PinInv s.db) (R := fun s s' => PinLater s.db s'.db)
    (fun s => .refl s.db) (fun h₁ h₂ => h₁.trans h₂) (fun _ e h => (pinInv_step h e).1)
    (fun _ e h => (pinInv_step h e).2) (pinInv_of_run es) fs

/-- The reports of a run, by fingerprint and image. -/
def Event.reports (s : State) : Event → List (String × String)
  | .environment env id token fingerprint imageId log =>
    if (environment? s env id token fingerprint imageId log).isSome then [(fingerprint, imageId)]
    else []
  | _ => []

/-- The reports that committed. -/
def reports (es : List Event) : List (String × String) :=
  machine.gather Event.reports machine.init es

/-- The image of every report is on file under its fingerprint. -/
theorem registered_of_reports {es : List Event} {fingerprint imageId : String}
    (h : (fingerprint, imageId) ∈ reports es) :
    ∃ v ∈ (machine.run es).db.environments,
      v.fingerprint = fingerprint ∧ v.imageId = some imageId := by
  induction es using List.reverseRecOn with
  | nil => exact absurd h List.not_mem_nil
  | append_singleton es e ih =>
    rw [reports, machine.gather_concat] at h
    rcases List.mem_append.mp h with hold | hnew
    · obtain ⟨v, hv, hrow⟩ := ih hold
      exact ⟨v, (pinLater_of_run es [e]).environments.subset hv, hrow⟩
    · cases e with
      | environment env id token f i log =>
        simp only [Event.reports] at hnew
        split at hnew
        · next hsome =>
          obtain ⟨rfl, rfl⟩ := Prod.mk.inj (List.mem_singleton.mp hnew)
          obtain ⟨db, hdb⟩ := Option.isSome_iff_exists.mp hsome
          have hc : (Event.environment env id token fingerprint imageId log).commit?
              (machine.run es) = some db := hdb
          have hstep : (machine.run (es ++ [.environment env id token fingerprint imageId log])).db =
              db := by
            rw [machine.run_concat]
            change (step _ _).db = db
            unfold step
            rw [hc]
            rfl
          rw [hstep]
          exact ((pinInv_of_run es).report hdb).2.row
        · exact absurd hnew List.not_mem_nil
      | _ => exact absurd hnew List.not_mem_nil

/-- What a worker that reports a phase is told: the image of the run, and
the fingerprint it is of. -/
def Database.pinOf (db : Database) (r : RunRows) : Option String × Option String :=
  (r.run.imageId, (r.run.environmentId.bind (db.environments[·]?)).map (·.fingerprint))

/-- **The environment of a run is pinned.** However runs, claims, pauses and
reports interleave, the registry only grows and has one row for each
fingerprint, so all reports of a fingerprint that commit are of one image;
the image a run has been given is that of all its later states; and what
its workers are told is an image with a fingerprint that was reported for
it. -/
theorem environment_pinned (es fs : List Event) :
    let now := (machine.run es).db
    let later := (machine.run (es ++ fs)).db
    (now.environments <+: later.environments ∧
      (later.environments.map (·.fingerprint)).Nodup) ∧
    (∀ p ∈ reports es, ∀ q ∈ reports es, p.1 = q.1 → p.2 = q.2) ∧
    (∀ (id : RunId) (r : RunRows), now.runs[id]? = some r →
      ∀ image, r.run.imageId = some image → image ≠ "" →
        ∃ r', later.runs[id]? = some r' ∧ r'.run.imageId = some image) ∧
    ∀ r ∈ now.runs, ∀ image, r.run.imageId = some image →
      ∃ v ∈ now.environments, v.imageId = some image ∧
        now.pinOf r = (some image, some v.fingerprint) := by
  intro now later
  have hinv := pinInv_of_run es
  have hlater := pinLater_of_run es fs
  refine ⟨⟨hlater.environments, (pinInv_of_run (es ++ fs)).unique⟩, ?_, ?_, ?_⟩
  · intro p hp q hq hsame
    obtain ⟨v, hv, hvf, hvi⟩ := registered_of_reports hp
    obtain ⟨w, hw, hwf, hwi⟩ := registered_of_reports hq
    have hone : v = w :=
      eq_of_fingerprint hinv.unique hv hw (hvf.trans (hsame.trans hwf.symm))
    rw [hone, hwi] at hvi
    exact (Option.some.inj hvi).symm
  · intro id r hr image himage hne
    obtain ⟨r', hr', hkept⟩ := hlater.pins id r hr
    exact ⟨r', hr', hkept image himage hne⟩
  · intro r hr image himage
    obtain ⟨k, v, hk, hv, hvi⟩ := hinv.registered r hr image himage
    refine ⟨v, List.mem_of_getElem? hv, hvi, ?_⟩
    unfold Database.pinOf
    rw [himage, hk, Option.bind_some, hv]
    rfl

/-- A worker reports an image, and another one for the same fingerprint. -/
def secondImage : List Event := [
  .confirm (envAt 0) (smallConfirm "key") 0,
  claimAt 1000 0 1 1,
  .environment (envAt 2000) ⟨0, 0⟩ (some 7) "f" "sha256:a" "",
  .environment (envAt 3000) ⟨0, 0⟩ (some 7) "f" "sha256:b" ""]

-- the second report is refused
example : reports secondImage = [("f", "sha256:a")] := by decide

end ControlPlane

end AgentReliability
