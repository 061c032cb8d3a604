import AgentReliability.ControlPlane.EventLog
import Mathlib.Data.List.Nodup
/-!
# The keys of the event table

The event table has two unique keys, over all runs: the idempotency key,
and the number an event has in its run. Every insert checks both, and the
second can never fail, since every writer takes the next number of its
run. So an insert that violates a unique key has found its idempotency key.
-/

namespace AgentReliability

namespace ControlPlane

def RunRows.eventKeys (r : RunRows) : List EventKey := r.traceEvents.map (·.idempotencyKey)

/-- **The idempotency keys of the event table**, over all runs. -/
def Database.eventKeys (db : Database) : List EventKey := db.runs.flatMap (·.eventKeys)

theorem Database.mem_eventKeys {db : Database} {key : EventKey} :
    key ∈ db.eventKeys ↔ ∃ (id : RunId) (r : RunRows), db.runs[id]? = some r ∧ key ∈ r.eventKeys := by
  unfold Database.eventKeys
  rw [List.mem_flatMap]
  constructor
  · rintro ⟨r, hr, hkey⟩
    obtain ⟨id, hid⟩ := List.getElem?_of_mem hr
    exact ⟨id, r, hid, hkey⟩
  · rintro ⟨id, r, hid, hkey⟩
    exact ⟨r, List.mem_of_getElem? hid, hkey⟩

/-- The unique constraint is on the keys of the table. -/
theorem keyTaken_iff {db : Database} (env : Env) (id : RunId) {key : EventKey} :
    (db.context env id).keyTaken key = true ↔ key ∈ db.eventKeys := by
  simp only [Database.context, Database.eventKeys, RunRows.eventKeys, List.any_eq_true,
    decide_eq_true_eq, List.mem_flatMap, List.mem_map]

/-! ## What an insert adds -/

/-- The keys of the control plane's own events differ with their numbers. -/
theorem nodup_of_own {events : List TraceEvent} (runId : RunId)
    (hnumbered : (events.map (·.runSequence)).Nodup)
    (hown : ∀ e ∈ events, e.idempotencyKey = .platform runId e.runSequence) :
    (events.map (·.idempotencyKey)).Nodup := by
  have hkeys : events.map (·.idempotencyKey) =
      (events.map (·.runSequence)).map (EventKey.platform runId) := by
    rw [List.map_map]
    exact List.map_congr_left hown
  rw [hkeys]
  exact hnumbered.map fun _ _ h => (EventKey.platform.inj h).2

/-- The row an event of a runtime is stored as, under a number. -/
def ReportedEvent.row (event : ReportedEvent) (runSequence : ℕ) : TraceEvent where
  attemptId := some event.attemptId
  runSequence
  attemptSequence := event.attemptSequence
  type := event.type
  payload := .reported event.payload
  idempotencyKey := event.idempotencyKey
  occurredAt := event.occurredAt

/-- A run with one more event, under the next number. -/
def RunRows.store (r : RunRows) (event : ReportedEvent) : RunRows :=
  { r with
    run := { r.run with lastSequence := r.run.lastSequence + 1 }
    traceEvents := r.traceEvents ++ [event.row (r.run.lastSequence + 1)] }

/-- **An ingestion that commits stores its event**, under a key that was
free. -/
theorem ingest_stores {ctx : Context} {r r' : RunRows} {event : ReportedEvent}
    (h : ingest ctx event r = .ok r') :
    r' = r.store event ∧ ctx.keyTaken event.idempotencyKey = false := by
  simp only [ingest, recordEvent, bind_eq_ok, require_eq_ok, pure_eq_ok] at h
  obtain ⟨r₁, ⟨-, ⟨hfree, -⟩, rfl⟩, -, -, rfl⟩ := h
  exact ⟨rfl, hfree⟩

/-- **A transaction adds events under keys that are free and differ.** -/
theorem RowStep.addedKeys {ctx : Context} {r r' : RunRows} {w : Writer} (h : RowStep ctx r r' w) :
    ∃ added : List TraceEvent, r'.traceEvents = r.traceEvents ++ added ∧
      (added.map (·.idempotencyKey)).Nodup ∧
      ∀ e ∈ added, ctx.keyTaken e.idempotencyKey = false := by
  by_cases hw : ∃ key, w = .runtime key
  · obtain ⟨key, rfl⟩ := hw
    cases h with
    | @ingest event h =>
      obtain ⟨rfl, hfree⟩ := ingest_stores h
      refine ⟨[event.row (r.run.lastSequence + 1)], rfl, List.nodup_singleton _, fun e he => ?_⟩
      rw [List.mem_singleton.mp he]
      exact hfree
  · obtain ⟨added, hevents, hnumbered, -, hkeys⟩ := h.freshLog
    refine ⟨added, hevents, nodup_of_own ctx.runId ?_ fun e he => ?_,
      fun e he => (hkeys e he).2⟩
    · rw [hnumbered]
      exact List.nodup_range'
    · have hown := (hkeys e he).1
      cases w with
      | runtime key => exact absurd ⟨key, rfl⟩ hw
      | _ => exact hown

/-! ## The keys are unique -/

/-- The keys of each run differ, and those of different runs. -/
structure KeysApart (db : Database) : Prop where
  distinct : ∀ (id : RunId) (r : RunRows), db.runs[id]? = some r → r.eventKeys.Nodup
  apart : ∀ (i j : RunId) (r r' : RunRows) (key : EventKey), db.runs[i]? = some r →
    db.runs[j]? = some r' → key ∈ r.eventKeys → key ∈ r'.eventKeys → i = j

theorem KeysApart.nodup {db : Database} (h : KeysApart db) : db.eventKeys.Nodup := by
  refine List.nodup_flatMap.mpr ⟨fun r hr => ?_, List.pairwise_iff_getElem.mpr ?_⟩
  · obtain ⟨id, hid⟩ := List.getElem?_of_mem hr
    exact h.distinct id r hid
  · intro i j hi hj hlt key hkey hkey'
    have hsame := h.apart i j _ _ key (List.getElem?_eq_getElem hi) (List.getElem?_eq_getElem hj)
      hkey hkey'
    exact absurd hsame (Nat.ne_of_lt hlt)

/-- Rows put in a table whose keys are apart: their new keys were free. -/
theorem KeysApart.put {db db' : Database} (h : KeysApart db) (id : RunId) (r' : RunRows)
    (hold : ∀ (j : RunId) (r : RunRows), db'.runs[j]? = some r →
      (j ≠ id ∧ db.runs[j]? = some r) ∨ (j = id ∧ r = r'))
    (hdistinct : r'.eventKeys.Nodup)
    (hfree : ∀ key ∈ r'.eventKeys, key ∉ db.eventKeys ∨
      ∃ r, db.runs[id]? = some r ∧ key ∈ r.eventKeys) : KeysApart db' := by
  -- A key of the new rows is in no other run.
  have hother : ∀ (j : RunId) (r : RunRows) (key : EventKey), j ≠ id → db.runs[j]? = some r →
      key ∈ r.eventKeys → key ∉ r'.eventKeys := by
    intro j r key hj hr hkey hkey'
    rcases hfree key hkey' with hnew | ⟨r₀, hr₀, hkey₀⟩
    · exact hnew (Database.mem_eventKeys.mpr ⟨j, r, hr, hkey⟩)
    · exact hj (h.apart j id r r₀ key hr hr₀ hkey hkey₀)
  refine ⟨fun j r hr => ?_, fun i j r₁ r₂ key hi hj hkey₁ hkey₂ => ?_⟩
  · rcases hold j r hr with ⟨-, hr⟩ | ⟨-, rfl⟩
    · exact h.distinct j r hr
    · exact hdistinct
  · rcases hold i r₁ hi with ⟨hne₁, hr₁⟩ | ⟨rfl, rfl⟩ <;>
      rcases hold j r₂ hj with ⟨hne₂, hr₂⟩ | ⟨rfl, rfl⟩
    · exact h.apart i j r₁ r₂ key hr₁ hr₂ hkey₁ hkey₂
    · exact absurd hkey₂ (hother i r₁ key hne₁ hr₁ hkey₁)
    · exact absurd hkey₁ (hother j r₂ key hne₂ hr₂ hkey₂)
    · rfl

theorem KeysApart.step {w : Writer} {env? : Option Env} {db db' : Database} (h : KeysApart db)
    (hs : DbStep w env? db db') : KeysApart db' := by
  cases hs with
  | @created env r hcreates hdb =>
    obtain ⟨hlog, hfresh, -⟩ := hcreates.log
    refine h.put db.runs.length r (fun j x hx => ?_) ?_ fun key hkey => .inl ?_
    · rw [hdb] at hx
      rcases getElem?_append_one hx with hold | hnew
      · exact .inl ⟨fun hj => by simp [hj] at hold, hold⟩
      · exact .inr hnew
    · refine nodup_of_own db.runs.length ?_ fun e he => (hfresh e he).1
      rw [hlog.numbered]
      exact List.nodup_range'
    · obtain ⟨e, he, rfl⟩ := List.mem_map.mp hkey
      rw [← keyTaken_iff env db.runs.length, (hfresh e he).2]
      decide
  | @wrote env id r r' hr hrow hdb =>
    obtain ⟨added, hevents, hdistinct, hfree⟩ := hrow.addedKeys
    have hkeys : r'.eventKeys = r.eventKeys ++ added.map (·.idempotencyKey) := by
      unfold RunRows.eventKeys
      rw [hevents, List.map_append]
    have hnew : ∀ key ∈ added.map (·.idempotencyKey), key ∉ db.eventKeys := by
      intro key hkey
      obtain ⟨e, he, rfl⟩ := List.mem_map.mp hkey
      rw [← keyTaken_iff env id, hfree e he]
      decide
    refine h.put id r' (fun j x hx => ?_) ?_ fun key hkey => ?_
    · rw [hdb] at hx
      rcases getElem?_set_one hx with hold | hset
      · by_cases hj : j = id
        · subst hj
          rw [List.getElem?_set_self (List.getElem?_eq_some_iff.mp hr).1] at hx
          exact .inr ⟨rfl, (Option.some.inj hx).symm⟩
        · exact .inl ⟨hj, hold⟩
      · exact .inr hset
    · rw [hkeys, List.nodup_append]
      refine ⟨h.distinct id r hr, hdistinct, fun key hkey key' hkey' heq => ?_⟩
      subst heq
      exact hnew key hkey' (Database.mem_eventKeys.mpr ⟨id, r, hr, hkey⟩)
    · rw [hkeys, List.mem_append] at hkey
      rcases hkey with hold | hadded
      · exact .inr ⟨r, hr, hold⟩
      · exact .inl (hnew key hadded)

/-- **No two events of the table share a key**, in any reachable state. -/
theorem keysApart_of_reachable {s : State} (hs : machine.Reachable s) : KeysApart s.db := by
  have hboth : Sound s ∧ KeysApart s.db := by
    refine machine.invariant (P := fun s => Sound s ∧ KeysApart s.db) ⟨Sound.init, ?_⟩ ?_ hs
    · exact ⟨fun id r hr => absurd hr (by simp [machine]),
        fun i j r r' key hi => absurd hi (by simp [machine])⟩
    · rintro s e ⟨hs, h⟩
      refine ⟨hs.step e, ?_⟩
      change KeysApart (ControlPlane.step s e).db
      rcases db_step s e with ⟨db, hc, hdb⟩ | hdb
      · rw [hdb]
        exact h.step (hs.dbStep_of_commit hc)
      · rw [hdb]
        exact h
  exact hboth.2

/-! ## A key stays -/

/-- An event of the table is there after every step. -/
theorem eventKeys_step {s : State} (hs : Sound s) (e : Event) :
    s.db.eventKeys ⊆ (step s e).db.eventKeys := by
  intro key hkey
  obtain ⟨id, r, hr, hmem⟩ := Database.mem_eventKeys.mp hkey
  obtain ⟨r', hr', hone⟩ := rows_step_of_some hs e hr
  refine Database.mem_eventKeys.mpr ⟨id, r', hr', ?_⟩
  rcases hone with rfl | ⟨env, hrow⟩
  · exact hmem
  · obtain ⟨added, hevents, -⟩ := hrow.log
    unfold RunRows.eventKeys at hmem ⊢
    rw [hevents, List.map_append]
    exact List.mem_append_left _ hmem

/-- **A key found in any version is in the table.** -/
theorem eventKeys_of_version {s : State} (hs : machine.Reachable s) :
    ∀ v ∈ s.versions, v.eventKeys ⊆ s.db.eventKeys := by
  have hboth : Sound s ∧ ∀ v ∈ s.versions, v.eventKeys ⊆ s.db.eventKeys := by
    refine machine.invariant
      (P := fun s => Sound s ∧ ∀ v ∈ s.versions, v.eventKeys ⊆ s.db.eventKeys)
      ⟨Sound.init, fun v hv => ?_⟩ ?_ hs
    · rw [List.mem_singleton.mp (show v ∈ [({} : Database)] from hv)]
      exact List.Subset.refl _
    · rintro s e ⟨hs, h⟩
      refine ⟨hs.step e, fun v hv => ?_⟩
      rcases versions_step s e v hv with hold | rfl
      · exact List.Subset.trans (h v hold) (eventKeys_step hs e)
      · exact List.Subset.refl _
  exact hboth.2

/-- **An ingestion that violates a unique key has found its own**: the
number it takes is free. -/
theorem key_of_uniqueViolation {db : Database} {env : Env} {id : RunId} {r : RunRows}
    {event : ReportedEvent} (hr : db.runs[id]? = some r) (hlog : LogInv r)
    (h : ingest (db.context env id) event r = .error .uniqueViolation) :
    event.idempotencyKey ∈ db.eventKeys := by
  by_contra hfree
  simp only [ingest, recordEvent, bind_eq_error, require_eq_error] at h
  rcases h with (⟨htaken, -⟩ | ⟨-, -, hpure⟩) | ⟨r₁, -, ⟨-, hother⟩ | ⟨-, -, hpure⟩⟩
  · refine htaken ⟨?_, fun e he => ⟨fun hkey => ?_, fun hsame => ?_⟩⟩
    · rw [← Bool.not_eq_true, keyTaken_iff]
      exact hfree
    · refine hfree (Database.mem_eventKeys.mpr ⟨id, r, hr, ?_⟩)
      rw [← hkey]
      exact List.mem_map_of_mem he
    · have hmem : e.runSequence ∈ r.traceEvents.map (·.runSequence) := List.mem_map_of_mem he
      rw [hlog.numbered, hsame] at hmem
      have := (List.mem_range'_1.mp hmem).2
      omega
  · exact absurd hpure (by simp [pure, Except.pure])
  · exact absurd hother (by decide)
  · exact absurd hpure (by simp [pure, Except.pure])

end ControlPlane

end AgentReliability
