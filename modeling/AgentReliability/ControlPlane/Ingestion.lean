import AgentReliability.Common.Program
import AgentReliability.ControlPlane.EventKeys
/-!
# The ingestion of trace events

`TraceEventIngestor.handleEntry` takes an entry off the `trace-events`
stream, looks for its idempotency key, stores the event in a transaction of
its own and acknowledges the entry. The lookup is outside the transaction,
and a unique violation is read as "stored already".

Any number of entries are handled beside each other, some of them twice,
and beside the control plane. Each effect may fail, or be had and its
answer lost; a handling that crashes is one that is never gone on with.
-/

namespace AgentReliability

namespace ControlPlane

/-! ## The function -/

inductive IngestError where
  /-- An error of the database: `P2002` is `uniqueViolation`. -/
  | service (e : ServiceError)
  /-- A `SyntaxError`, an error of Redis, a lost connection, or any other. -/
  | fault (name : String)
  deriving DecidableEq, Repr

/-- What `TraceEventSchema.safeParse(JSON.parse(text))` comes to. -/
inductive Decoded where
  /-- `JSON.parse` throws. -/
  | malformed
  | invalid
  | event (runId : RunId) (event : ReportedEvent)

inductive IngestEffect where
  /-- `traceEvent.findUnique`. -/
  | find (key : EventKey)
  /-- The transaction. -/
  | store (runId : RunId) (event : ReportedEvent)
  /-- The broadcast of the row that was stored. -/
  | publish (runId : RunId) (stored : TraceEvent)
  /-- `XACK`. -/
  | ack

/-- The transaction answers with the number it has given. -/
@[reducible] def IngestEffect.Answer : IngestEffect → Type
  | find _ => Bool
  | store _ _ => ℕ
  | _ => Unit

/-- How a handling returns: the entry acknowledged, or an error logged. -/
inductive Handled where
  | acknowledged
  | failed
  deriving DecidableEq, Repr

abbrev IngestProgram := Program IngestEffect IngestEffect.Answer IngestError

/-- `fields[fields.indexOf('data') + 1]`. -/
def dataField (fields : List String) : Option String :=
  match fields.idxOf? "data" with
  | some i => fields[i + 1]?
  | none => fields[0]?

/-- `await this.ack(entryId)`, and the return. -/
def ackEntry : IngestProgram Handled := do
  Program.call IngestEffect.ack
  pure .acknowledged

/-- The `catch` block. -/
def onError : IngestError → IngestProgram Handled
  | .service .uniqueViolation => ackEntry
  | _ => pure .failed

/-- The body of the `if (!existing)`. -/
def storeAndPublish (runId : RunId) (event : ReportedEvent) : IngestProgram Unit := do
  let runSequence ← Program.call (IngestEffect.store runId event)
  Program.call (IngestEffect.publish runId (event.row runSequence))

/-- `TraceEventIngestor.handleEntry`, over what the parser makes of the
data. -/
def handleEntry (decode : Option String → Decoded) (fields : List String) : IngestProgram Handled :=
  Program.tryExcept
    (match decode (dataField fields) with
      | .malformed => .raise (.fault "SyntaxError")
      | .invalid => ackEntry
      | .event runId event => do
        let existing ← Program.call (IngestEffect.find event.idempotencyKey)
        if existing then ackEntry
        else do
          storeAndPublish runId event
          ackEntry)
    onError

/-! ### Its continuations -/

/-- The `XACK` of the `catch` block, which nothing guards. -/
def ackDuplicate : IngestProgram Handled :=
  .perform .ack fun
    | .ok () => .ret .acknowledged
    | .error e => .raise e

/-- After an error. -/
def recover (e : IngestError) : IngestProgram Handled :=
  if e = .service .uniqueViolation then ackDuplicate else .ret .failed

/-- The `XACK` at the end of the `try` block. -/
def acking : IngestProgram Handled :=
  .perform .ack fun
    | .ok () => .ret .acknowledged
    | .error e => recover e

def publishing (runId : RunId) (stored : TraceEvent) : IngestProgram Handled :=
  .perform (.publish runId stored) fun
    | .ok () => acking
    | .error e => recover e

def storing (runId : RunId) (event : ReportedEvent) : IngestProgram Handled :=
  .perform (.store runId event) fun
    | .ok runSequence => publishing runId (event.row runSequence)
    | .error e => recover e

def finding (runId : RunId) (event : ReportedEvent) : IngestProgram Handled :=
  .perform (.find event.idempotencyKey) fun
    | .ok true => acking
    | .ok false => storing runId event
    | .error e => recover e

theorem ackEntry_eq : ackEntry = ackDuplicate := by
  refine congrArg (Program.perform _) (funext fun answer => ?_)
  rcases answer with e | ⟨⟩ <;> rfl

theorem onError_eq (e : IngestError) : onError e = recover e := by
  unfold recover
  split
  · rename_i h
    rw [h]
    exact ackEntry_eq
  · rename_i h
    unfold onError
    split
    · exact absurd rfl h
    · rfl

theorem tryExcept_ackEntry : Program.tryExcept ackEntry onError = acking := by
  refine congrArg (Program.perform _) (funext fun answer => ?_)
  rcases answer with e | ⟨⟩
  · exact onError_eq e
  · rfl

/-- **The function, effect by effect.** -/
theorem handleEntry_eq (decode : Option String → Decoded) (fields : List String) :
    handleEntry decode fields = match decode (dataField fields) with
      | .malformed => .ret .failed
      | .invalid => acking
      | .event runId event => finding runId event := by
  unfold handleEntry
  cases decode (dataField fields) with
  | malformed => rfl
  | invalid => exact tryExcept_ackEntry
  | event runId event =>
    -- One effect after the other, each with its two answers.
    refine congrArg (Program.perform _) (funext fun answer => ?_)
    match answer with
    | .error e => exact onError_eq e
    | .ok true => exact tryExcept_ackEntry
    | .ok false =>
      refine congrArg (Program.perform _) (funext fun answer => ?_)
      match answer with
      | .error e => exact onError_eq e
      | .ok runSequence =>
        refine congrArg (Program.perform _) (funext fun answer => ?_)
        match answer with
        | .error e => exact onError_eq e
        | .ok () => exact tryExcept_ackEntry

/-! ## The handlings, beside the control plane -/

/-- One execution of `handleEntry`, for the entry at a position of the
stream. -/
structure EntryHandling where
  entry : ℕ
  program : IngestProgram Handled

structure IngestState where
  plane : State := {}
  /-- The `trace-events` stream: the fields of each entry. -/
  entries : List (List String) := []
  handlings : List EntryHandling := []

inductive IngestEvent where
  | plane (e : Event)
  /-- `XADD`, by any producer. -/
  | add (fields : List String)
  /-- `XREADGROUP` or `XAUTOCLAIM` hands an entry to a consumer. -/
  | deliver (entry : ℕ)
  /-- The effect a handling waits for is had, and answered, or the answer is
  lost. A lookup reads some committed version. -/
  | perform (i : ℕ) (env : Env) (readAt : ℕ) (lost : Option String)
  /-- The effect a handling waits for fails, and is not had. -/
  | fail (i : ℕ) (name : String)

/-- An answer, unless it is lost. -/
def heard {α : Type} (lost : Option String) (answer : Except IngestError α) :
    Except IngestError α :=
  match lost with
  | some name => .error (.fault name)
  | none => answer

/-- A version has the key. -/
def State.finds (s : State) (readAt : ℕ) (key : EventKey) : Bool :=
  s.versions[readAt]?.any fun v => decide (key ∈ v.eventKeys)

/-- The transaction of `handleEntry`, with the number it has given. -/
def State.storeEvent (s : State) (env : Env) (runId : RunId) (event : ReportedEvent) :
    State × Except IngestError ℕ :=
  match s.db.transact env runId (fun ctx => ingest ctx event) with
  | .ok db => (s.commit db, .ok ((db.runs[runId]?.map (·.run.lastSequence)).getD 0))
  | .error e => (s, .error (.service e))

namespace IngestState

variable (s : IngestState)

/-- A handling goes on. -/
def resume (i entry : ℕ) (program : IngestProgram Handled) : IngestState :=
  { s with handlings := s.handlings.set i { entry, program } }

/-- The effect of a handling is had. -/
def perform (i : ℕ) (env : Env) (readAt : ℕ) (lost : Option String) : IngestState :=
  match s.handlings[i]? with
  | none => s
  | some h =>
    match h.program with
    | .perform (.find key) k => s.resume i h.entry (k (heard lost (.ok (s.plane.finds readAt key))))
    | .perform (.store runId event) k =>
      { s with plane := (s.plane.storeEvent env runId event).1 }.resume i h.entry
        (k (heard lost (s.plane.storeEvent env runId event).2))
    | .perform (.publish _ _) k => s.resume i h.entry (k (heard lost (.ok ())))
    | .perform .ack k => s.resume i h.entry (k (heard lost (.ok ())))
    | _ => s

/-- The effect of a handling fails. -/
def fail (i : ℕ) (name : String) : IngestState :=
  match s.handlings[i]? with
  | none => s
  | some h =>
    match h.program with
    | .perform _ k => s.resume i h.entry (k (.error (.fault name)))
    | _ => s

/-- The handling waits for its `XACK`. -/
def waitsAck (i : ℕ) : Bool :=
  s.handlings[i]?.any fun h => match h.program.effect? with
    | some .ack => true
    | _ => false

end IngestState

variable (decode : Option String → Decoded)

/-- An entry is handed to a consumer. -/
def IngestState.deliver (s : IngestState) (entry : ℕ) : IngestState :=
  match s.entries[entry]? with
  | some fields =>
    { s with handlings := s.handlings ++ [{ entry, program := handleEntry decode fields }] }
  | none => s

def ingestStep (s : IngestState) : IngestEvent → IngestState
  | .plane e => { s with plane := step s.plane e }
  | .add fields => { s with entries := s.entries ++ [fields] }
  | .deliver entry => s.deliver decode entry
  | .perform i env readAt lost => s.perform i env readAt lost
  | .fail i name => s.fail i name

/-- The consumers beside the control plane. -/
def ingestors : Machine IngestState IngestEvent where
  init := {}
  step := ingestStep decode

/-! ## What a handling has done -/

/-- The `XACK`s of a handling that an event has had. -/
def IngestEvent.acks (i : ℕ) (s : IngestState) : IngestEvent → List Unit
  | .perform j _ _ _ => if j = i ∧ s.waitsAck i then [()] else []
  | _ => []

/-- The runs before and after, where an event is a step of the handling
and changes them. -/
def IngestEvent.writes (i : ℕ) (s : IngestState) : IngestEvent → List (List RunRows × List RunRows)
  | .perform j env readAt lost =>
    if j = i ∧ (s.perform j env readAt lost).plane.db.runs ≠ s.plane.db.runs then
      [(s.plane.db.runs, (s.perform j env readAt lost).plane.db.runs)]
    else []
  | .fail j name =>
    if j = i ∧ (s.fail j name).plane.db.runs ≠ s.plane.db.runs then
      [(s.plane.db.runs, (s.fail j name).plane.db.runs)]
    else []
  | _ => []

/-- **The `XACK`s of a handling** that Redis has had, over a run. -/
def handlingAcks (i : ℕ) (es : List IngestEvent) : List Unit :=
  (ingestors decode).gather (IngestEvent.acks i) (ingestors decode).init es

/-- **What a handling has changed**, over a run: the runs before and after. -/
def handlingWrites (i : ℕ) (es : List IngestEvent) : List (List RunRows × List RunRows) :=
  (ingestors decode).gather (IngestEvent.writes i) (ingestors decode).init es

/-! ## The transaction -/

/-- The first version is the empty database. -/
theorem first_version {s : State} (hs : machine.Reachable s) : s.versions[0]? = some ({} : Database) := by
  refine machine.invariant (P := fun s => s.versions[0]? = some ({} : Database)) rfl (fun s e h => ?_) hs
  change (ControlPlane.step s e).versions[0]? = some ({} : Database)
  unfold ControlPlane.step
  split
  · change (s.versions ++ [_])[0]? = some ({} : Database)
    rw [List.getElem?_append_left (List.getElem?_eq_some_iff.mp h).1]
    exact h
  · exact h

/-- **The transaction is a step of the control plane.** -/
theorem storeEvent_eq_step {s : State} (hs : machine.Reachable s) (env : Env) (runId : RunId)
    (event : ReportedEvent) :
    (s.storeEvent env runId event).1 = step s (.request env (.ingest runId event 0)) := by
  have hprepare : (Request.ingest runId event 0).prepare s env =
      .ok (some ⟨runId, fun ctx => ingest ctx event⟩) := by
    simp [Request.prepare, first_version hs, pure, Except.pure]
  have hcommit : (Event.request env (.ingest runId event 0)).commit? s =
      (s.db.transact env runId fun ctx => ingest ctx event).toOption := by
    simp only [Event.commit?, Request.commit?, hprepare]
  unfold State.storeEvent step
  rw [hcommit]
  split
  · rename_i db hdb
    rw [hdb]
    simp [Except.toOption, Event.grants, Request.grants, State.commit]
  · rename_i e he
    rw [he]
    simp [Except.toOption, Event.published]

/-- What the transaction does: it stores the event, under a key that was
free, or it changes nothing. -/
theorem storeEvent_cases {s : State} (hs : machine.Reachable s) (env : Env) (runId : RunId)
    (event : ReportedEvent) :
    (∃ r n, s.db.runs[runId]? = some r ∧ event.idempotencyKey ∉ s.db.eventKeys ∧
        (s.storeEvent env runId event).1.db.runs = s.db.runs.set runId (r.store event) ∧
        (s.storeEvent env runId event).2 = .ok n ∧
        event.idempotencyKey ∈ (s.storeEvent env runId event).1.db.eventKeys) ∨
      ∃ e, s.storeEvent env runId event = (s, .error (.service e)) ∧
        (e = .uniqueViolation → event.idempotencyKey ∈ s.db.eventKeys) := by
  cases htransact : s.db.transact env runId (fun ctx => ingest ctx event) with
  | ok db =>
    have hstored : s.storeEvent env runId event =
        (s.commit db, .ok ((db.runs[runId]?.map (·.run.lastSequence)).getD 0)) := by
      unfold State.storeEvent
      rw [htransact]
    simp only [Database.transact, bind_eq_ok, orThrow_eq_ok, pure_eq_ok] at htransact
    obtain ⟨r, hr, r', hingest, rfl⟩ := htransact
    obtain ⟨rfl, hfree⟩ := ingest_stores hingest
    refine .inl ⟨r, _, hr, ?_, by rw [hstored]; rfl, by rw [hstored], ?_⟩
    · rw [← keyTaken_iff env runId, hfree]
      decide
    · rw [hstored]
      refine Database.mem_eventKeys.mpr ⟨runId, r.store event, ?_, ?_⟩
      · exact List.getElem?_set_self (List.getElem?_eq_some_iff.mp hr).1
      · simp [RunRows.eventKeys, RunRows.store, ReportedEvent.row]
  | error e =>
    refine .inr ⟨e, by unfold State.storeEvent; rw [htransact], ?_⟩
    rintro rfl
    simp only [Database.transact, bind_eq_error, orThrow_eq_error] at htransact
    rcases htransact with ⟨-, hother⟩ | ⟨r, hr, hingest | ⟨r', -, hpure⟩⟩
    · exact absurd hother (by decide)
    · obtain ⟨es, rfl⟩ := hs
      have hr := orThrow_eq_ok.mp hr
      exact key_of_uniqueViolation hr (logInv_of_run es hr) hingest
    · exact absurd hpure (by simp [pure, Except.pure])

/-! ## Where a handling can be -/

/-- The event of an entry is in the table, if it holds one. -/
def Stored (s : State) (decoded : Decoded) : Prop :=
  ∀ runId event, decoded = .event runId event → event.idempotencyKey ∈ s.db.eventKeys

/-- **Where a handling can be, and what is known there.** -/
inductive IngestStage (s : State) : Decoded → IngestProgram Handled → Prop
  | ended {d : Decoded} {program : IngestProgram Handled} (h : program.effect? = none) :
      IngestStage s d program
  | finding {runId : RunId} {event : ReportedEvent} :
      IngestStage s (.event runId event) (finding runId event)
  | storing {runId : RunId} {event : ReportedEvent} :
      IngestStage s (.event runId event) (storing runId event)
  | publishing {runId : RunId} {event : ReportedEvent} {n : ℕ}
      (h : Stored s (.event runId event)) :
      IngestStage s (.event runId event) (publishing runId (event.row n))
  | acking {d : Decoded} (h : Stored s d) : IngestStage s d acking
  | ackDuplicate {d : Decoded} (h : Stored s d) : IngestStage s d ackDuplicate

/-- The handling has its transaction still before it. -/
def beforeStore (program : IngestProgram Handled) : Bool :=
  match program.effect? with
  | some (.find _) => true
  | some (.store _ _) => true
  | _ => false

theorem stored_of_mem {s : State} {runId : RunId} {event : ReportedEvent}
    (h : event.idempotencyKey ∈ s.db.eventKeys) : Stored s (.event runId event) := by
  rintro _ _ heq
  obtain ⟨rfl, rfl⟩ := Decoded.event.inj heq
  exact h

theorem Stored.mono {s s' : State} {d : Decoded} (h : Stored s d)
    (hkeys : s.db.eventKeys ⊆ s'.db.eventKeys) : Stored s' d :=
  fun runId event hd => hkeys (h runId event hd)

theorem IngestStage.mono {s s' : State} {d : Decoded} {program : IngestProgram Handled}
    (h : IngestStage s d program) (hkeys : s.db.eventKeys ⊆ s'.db.eventKeys) :
    IngestStage s' d program := by
  cases h with
  | ended h => exact .ended h
  | finding => exact .finding
  | storing => exact .storing
  | publishing h => exact .publishing (h.mono hkeys)
  | acking h => exact .acking (h.mono hkeys)
  | ackDuplicate h => exact .ackDuplicate (h.mono hkeys)

theorem stage_handleEntry {s : State} {decode : Option String → Decoded} (fields : List String) :
    IngestStage s (decode (dataField fields)) (handleEntry decode fields) := by
  rw [handleEntry_eq]
  cases decode (dataField fields) with
  | malformed => exact .ended rfl
  | invalid => exact .acking fun _ _ h => absurd h (by simp)
  | event runId event => exact .finding

/-- An error ends the handling, unless it says that the key is stored. -/
theorem stage_recover {s : State} {d : Decoded} (e : IngestError)
    (h : e = .service .uniqueViolation → Stored s d) : IngestStage s d (recover e) := by
  unfold recover
  split
  · exact .ackDuplicate (h ‹_›)
  · exact .ended rfl

/-! ## One step of a handling -/

/-- **How a handling of an entry goes on** when its effect is had or fails,
and what becomes of the control plane. -/
structure Advance (s : IngestState) (h : EntryHandling) (d : Decoded) (plane : State)
    (program : IngestProgram Handled) : Prop where
  reachable : machine.Reachable plane
  keys : s.plane.db.eventKeys ⊆ plane.db.eventKeys
  stage : IngestStage plane d program
  /-- Its transaction is behind it once it has changed anything, and stays
  behind it. -/
  before : beforeStore program = true → beforeStore h.program = true
  writes : plane.db.runs = s.plane.db.runs ∨
    ∃ runId event r, d = .event runId event ∧ s.plane.db.runs[runId]? = some r ∧
      event.idempotencyKey ∉ s.plane.db.eventKeys ∧
      plane.db.runs = s.plane.db.runs.set runId (r.store event) ∧
      event.idempotencyKey ∈ plane.db.eventKeys ∧
      beforeStore h.program = true ∧ beforeStore program = false

/-- A step that leaves the control plane as it is. -/
theorem Advance.of_same {s : IngestState} {h : EntryHandling} {d : Decoded}
    {program : IngestProgram Handled} (hs : machine.Reachable s.plane)
    (hstage : IngestStage s.plane d program)
    (hbefore : beforeStore program = true → beforeStore h.program = true) :
    Advance s h d s.plane program :=
  ⟨hs, List.Subset.refl _, hstage, hbefore, .inl rfl⟩

theorem waitsAck_eq {s : IngestState} {i : ℕ} {h : EntryHandling} (hi : s.handlings[i]? = some h) :
    s.waitsAck i = match h.program.effect? with
      | some .ack => true
      | _ => false := by
  unfold IngestState.waitsAck
  rw [hi]
  rfl

/-- **The effect is had**: spec of `perform`. -/
theorem advance_perform {s : IngestState} (hs : machine.Reachable s.plane) {i : ℕ}
    {h : EntryHandling} (hi : s.handlings[i]? = some h) {d : Decoded}
    (hstage : IngestStage s.plane d h.program) (env : Env) (readAt : ℕ) (lost : Option String) :
    s.perform i env readAt lost = s ∧ s.waitsAck i = false ∨
      ∃ plane program, s.perform i env readAt lost =
        { s with plane }.resume i h.entry program ∧ Advance s h d plane program ∧
        (s.waitsAck i = true → Stored plane d) := by
  obtain ⟨entry, program⟩ := h
  have hwaits := waitsAck_eq hi
  unfold IngestState.perform
  rw [hi]
  cases hstage with
  | ended hended =>
    simp only at hended ⊢
    rw [hwaits, hended]
    refine .inl ⟨?_, rfl⟩
    split <;> simp_all
  | @finding runId event =>
    have hack : ¬ s.waitsAck i = true := by rw [hwaits]; exact Bool.false_ne_true
    refine .inr ⟨s.plane, _, rfl, .of_same hs ?_ fun _ => rfl, fun h => absurd h hack⟩
    cases lost with
    | some name => exact .ended rfl
    | none =>
      cases hfound : s.plane.finds readAt event.idempotencyKey with
      | false => exact .storing
      | true =>
        refine .acking (stored_of_mem ?_)
        obtain ⟨v, hv, hmem⟩ := Option.any_eq_true _ _ |>.mp hfound
        exact eventKeys_of_version hs v (List.mem_of_getElem? hv) (of_decide_eq_true hmem)
  | @storing runId event =>
    have hack : ¬ s.waitsAck i = true := by rw [hwaits]; exact Bool.false_ne_true
    have hreach : machine.Reachable (s.plane.storeEvent env runId event).1 := by
      rw [storeEvent_eq_step hs]
      exact hs.step _
    have hkeys : s.plane.db.eventKeys ⊆ (s.plane.storeEvent env runId event).1.db.eventKeys := by
      rw [storeEvent_eq_step hs]
      exact eventKeys_step (sound_of_reachable hs) _
    refine .inr ⟨(s.plane.storeEvent env runId event).1, _, rfl, ?_⟩
    rcases storeEvent_cases hs env runId event with
      ⟨r, n, hr, hfree, hruns, hanswer, hmem⟩ | ⟨e, heq, hviolation⟩
    · -- Committed: whatever the handling hears, the event is there.
      refine ⟨⟨hreach, hkeys, ?_, fun _ => rfl, .inr ⟨runId, event, r, rfl, hr, hfree, hruns, hmem,
        rfl, ?_⟩⟩, fun h => absurd h hack⟩
      · rw [hanswer]
        cases lost with
        | some name => exact .ended rfl
        | none => exact .publishing (stored_of_mem hmem)
      · rw [hanswer]
        cases lost <;> rfl
    · refine ⟨⟨hreach, hkeys, ?_, fun _ => rfl, .inl (by rw [heq])⟩, fun h => absurd h hack⟩
      rw [heq]
      cases lost with
      | some name => exact .ended rfl
      | none =>
        refine stage_recover _ fun hcode => stored_of_mem ?_
        exact hviolation (IngestError.service.inj hcode)
  | @publishing runId event n hstored =>
    have hack : ¬ s.waitsAck i = true := by rw [hwaits]; exact Bool.false_ne_true
    refine .inr ⟨s.plane, _, rfl, .of_same hs ?_ fun h => ?_, fun h => absurd h hack⟩
    · cases lost with
      | some name => exact .ended rfl
      | none => exact .acking hstored
    · cases lost <;> exact absurd h Bool.false_ne_true
  | acking hstored =>
    refine .inr ⟨s.plane, _, rfl, .of_same hs ?_ fun h => ?_, fun _ => hstored⟩
    · cases lost <;> exact .ended rfl
    · cases lost <;> exact absurd h Bool.false_ne_true
  | ackDuplicate hstored =>
    refine .inr ⟨s.plane, _, rfl, .of_same hs ?_ fun h => ?_, fun _ => hstored⟩
    · cases lost <;> exact .ended rfl
    · cases lost <;> exact absurd h Bool.false_ne_true

/-- **The effect fails**: spec of `fail`. -/
theorem advance_fail {s : IngestState} {i : ℕ} {h : EntryHandling} (hi : s.handlings[i]? = some h)
    {d : Decoded} (hstage : IngestStage s.plane d h.program) (name : String) :
    s.fail i name = s ∨ ∃ program, s.fail i name = s.resume i h.entry program ∧
      IngestStage s.plane d program ∧ beforeStore program = false := by
  obtain ⟨entry, program⟩ := h
  unfold IngestState.fail
  rw [hi]
  cases hstage with
  | ended hended =>
    simp only at hended ⊢
    refine .inl ?_
    split <;> simp_all
  | finding => exact .inr ⟨_, rfl, .ended rfl, rfl⟩
  | storing => exact .inr ⟨_, rfl, .ended rfl, rfl⟩
  | publishing => exact .inr ⟨_, rfl, .ended rfl, rfl⟩
  | acking => exact .inr ⟨_, rfl, .ended rfl, rfl⟩
  | ackDuplicate => exact .inr ⟨_, rfl, .ended rfl, rfl⟩

/-! ## Exactly once -/

/-- What a handling of an entry has done, over a run. -/
structure Once (es : List IngestEvent) (i : ℕ) (d : Decoded) : Prop where
  /-- It has changed nothing, or stored its event under the next number. -/
  writes : handlingWrites decode i es = [] ∨ ∃ runId event runs r, d = .event runId event ∧
    runs[runId]? = some r ∧
    handlingWrites decode i es = [(runs, runs.set runId (r.store event))] ∧
    event.idempotencyKey ∈ ((ingestors decode).run es).plane.db.eventKeys
  /-- It has not acknowledged its entry before the event was stored. -/
  acks : handlingAcks decode i es = [] ∨ Stored ((ingestors decode).run es).plane d

/-- A handling, with its entry. -/
structure HandledInv (es : List IngestEvent) (i : ℕ) (h : EntryHandling) (fields : List String) :
    Prop where
  entry : ((ingestors decode).run es).entries[h.entry]? = some fields
  stage : IngestStage ((ingestors decode).run es).plane (decode (dataField fields)) h.program
  before : beforeStore h.program = true → handlingWrites decode i es = []
  once : Once decode es i (decode (dataField fields))

structure IngestInv (es : List IngestEvent) : Prop where
  reachable : machine.Reachable ((ingestors decode).run es).plane
  handled : ∀ i h, ((ingestors decode).run es).handlings[i]? = some h →
    ∃ fields, HandledInv decode es i h fields
  absent : ∀ i, ((ingestors decode).run es).handlings[i]? = none →
    handlingWrites decode i es = [] ∧ handlingAcks decode i es = []

variable {decode}

theorem handlingWrites_concat (i : ℕ) (es : List IngestEvent) (e : IngestEvent) :
    handlingWrites decode i (es ++ [e]) =
      handlingWrites decode i es ++ e.writes i ((ingestors decode).run es) :=
  (ingestors decode).gather_concat _ es e

theorem handlingAcks_concat (i : ℕ) (es : List IngestEvent) (e : IngestEvent) :
    handlingAcks decode i (es ++ [e]) =
      handlingAcks decode i es ++ e.acks i ((ingestors decode).run es) :=
  (ingestors decode).gather_concat _ es e

/-- **A handling an event does not advance** keeps what it has done. -/
theorem HandledInv.keep {es : List IngestEvent} {i : ℕ} {h : EntryHandling} {fields : List String}
    (hinv : HandledInv decode es i h fields) {e : IngestEvent}
    (hentries : ((ingestors decode).run es).entries <+: ((ingestors decode).run (es ++ [e])).entries)
    (hkeys : ((ingestors decode).run es).plane.db.eventKeys ⊆
      ((ingestors decode).run (es ++ [e])).plane.db.eventKeys)
    (hwrites : e.writes i ((ingestors decode).run es) = [])
    (hacks : e.acks i ((ingestors decode).run es) = []) :
    HandledInv decode (es ++ [e]) i h fields := by
  have hsame : handlingWrites decode i (es ++ [e]) = handlingWrites decode i es := by
    rw [handlingWrites_concat, hwrites, List.append_nil]
  refine ⟨?_, hinv.stage.mono hkeys, fun hb => hsame.trans (hinv.before hb), ?_, ?_⟩
  · obtain ⟨rest, hrest⟩ := hentries
    rw [← hrest, List.getElem?_append_left (List.getElem?_eq_some_iff.mp hinv.entry).1]
    exact hinv.entry
  · rw [hsame]
    rcases hinv.once.writes with hnone | ⟨runId, event, runs, r, hd, hr, hone, hmem⟩
    · exact .inl hnone
    · exact .inr ⟨runId, event, runs, r, hd, hr, hone, hkeys hmem⟩
  · rw [handlingAcks_concat, hacks, List.append_nil]
    exact hinv.once.acks.imp_right fun hstored => hstored.mono hkeys

/-- An event that is no step of any handling. -/
theorem IngestInv.of_other {es : List IngestEvent} (hinv : IngestInv decode es) {e : IngestEvent}
    (hreach : machine.Reachable ((ingestors decode).run (es ++ [e])).plane)
    (hentries : ((ingestors decode).run es).entries <+: ((ingestors decode).run (es ++ [e])).entries)
    (hkeys : ((ingestors decode).run es).plane.db.eventKeys ⊆
      ((ingestors decode).run (es ++ [e])).plane.db.eventKeys)
    (hwrites : ∀ i, e.writes i ((ingestors decode).run es) = [])
    (hacks : ∀ i, e.acks i ((ingestors decode).run es) = [])
    (hhandlings : ((ingestors decode).run (es ++ [e])).handlings =
      ((ingestors decode).run es).handlings) : IngestInv decode (es ++ [e]) := by
  refine ⟨hreach, fun i h hi => ?_, fun i hi => ?_⟩
  · rw [hhandlings] at hi
    obtain ⟨fields, hhandled⟩ := hinv.handled i h hi
    exact ⟨fields, hhandled.keep hentries hkeys (hwrites i) (hacks i)⟩
  · rw [hhandlings] at hi
    obtain ⟨hnone, hunacked⟩ := hinv.absent i hi
    rw [handlingWrites_concat, handlingAcks_concat, hwrites, hacks, hnone, hunacked]
    exact ⟨rfl, rfl⟩

/-- **A step of a handling**: it goes on, and the others keep what they have
done. -/
theorem IngestInv.of_advance {es : List IngestEvent} (hinv : IngestInv decode es) {e : IngestEvent}
    {i : ℕ} {h : EntryHandling} (hi : ((ingestors decode).run es).handlings[i]? = some h)
    {fields : List String} (hhandled : HandledInv decode es i h fields) (plane : State)
    {program : IngestProgram Handled}
    (hstep : (ingestors decode).run (es ++ [e]) =
      { (ingestors decode).run es with plane }.resume i h.entry program)
    (hadvance : Advance ((ingestors decode).run es) h (decode (dataField fields)) plane program)
    (hwrites : ∀ j, e.writes j ((ingestors decode).run es) =
      if j = i ∧ plane.db.runs ≠ ((ingestors decode).run es).plane.db.runs then
        [(((ingestors decode).run es).plane.db.runs, plane.db.runs)] else [])
    (hacks : ∀ j, e.acks j ((ingestors decode).run es) ≠ [] →
      j = i ∧ Stored plane (decode (dataField fields))) :
    IngestInv decode (es ++ [e]) := by
  have hplane : ((ingestors decode).run (es ++ [e])).plane = plane := by rw [hstep]; rfl
  have hentries : ((ingestors decode).run (es ++ [e])).entries =
      ((ingestors decode).run es).entries := by rw [hstep]; rfl
  have hhandlings : ((ingestors decode).run (es ++ [e])).handlings =
      ((ingestors decode).run es).handlings.set i ⟨h.entry, program⟩ := by rw [hstep]; rfl
  have hkeys : ((ingestors decode).run es).plane.db.eventKeys ⊆
      ((ingestors decode).run (es ++ [e])).plane.db.eventKeys := by
    rw [hplane]
    exact hadvance.keys
  -- The other handlings neither write nor acknowledge.
  have hother : ∀ j, j ≠ i → e.writes j ((ingestors decode).run es) = [] ∧
      e.acks j ((ingestors decode).run es) = [] := by
    intro j hj
    refine ⟨by rw [hwrites, if_neg fun hc => hj hc.1], ?_⟩
    by_contra hacked
    exact hj (hacks j hacked).1
  refine ⟨by rw [hplane]; exact hadvance.reachable, fun j x hx => ?_, fun j hj => ?_⟩
  · rw [hhandlings] at hx
    by_cases hji : j = i
    · subst hji
      rw [List.getElem?_set_self (List.getElem?_eq_some_iff.mp hi).1] at hx
      obtain rfl := Option.some.inj hx
      refine ⟨fields, by rw [hentries]; exact hhandled.entry, by rw [hplane]; exact hadvance.stage,
        fun hb => ?_, ?_, ?_⟩
      · rw [handlingWrites_concat, hhandled.before (hadvance.before hb), hwrites]
        rcases hadvance.writes with hsame | ⟨-, -, -, -, -, -, -, -, -, hafter⟩
        · exact if_neg fun hc => hc.2 hsame
        · exact absurd hb (by rw [hafter]; exact Bool.false_ne_true)
      · rw [handlingWrites_concat, hwrites, hplane]
        rcases hadvance.writes with hsame | ⟨runId, event, r, hd, hr, -, hruns, hmem, hbefore, -⟩
        · rw [if_neg fun hc => hc.2 hsame, List.append_nil]
          rcases hhandled.once.writes with hnone | ⟨runId, event, runs, r, hd, hr, hone, hmem⟩
          · exact .inl hnone
          · exact .inr ⟨runId, event, runs, r, hd, hr, hone, hadvance.keys hmem⟩
        · -- The transaction was still before it, so this is its one change.
          rw [hhandled.before hbefore, List.nil_append]
          split
          · exact .inr ⟨runId, event, _, r, hd, hr, by rw [hruns], hmem⟩
          · exact .inl rfl
      · rw [handlingAcks_concat, hplane]
        by_cases hacked : e.acks j ((ingestors decode).run es) = []
        · rw [hacked, List.append_nil]
          exact hhandled.once.acks.imp_right fun hstored => hstored.mono hadvance.keys
        · exact .inr (hacks j hacked).2
    · rw [List.getElem?_set_ne (Ne.symm hji)] at hx
      obtain ⟨fields', hhandled'⟩ := hinv.handled j x hx
      obtain ⟨hwrote, hacked⟩ := hother j hji
      exact ⟨fields', hhandled'.keep (hentries ▸ List.prefix_refl _) hkeys hwrote hacked⟩
  · have hji : j ≠ i := by
      rintro rfl
      rw [hhandlings, List.getElem?_set_self (List.getElem?_eq_some_iff.mp hi).1] at hj
      exact absurd hj (by simp)
    rw [hhandlings, List.getElem?_set_ne (Ne.symm hji)] at hj
    obtain ⟨hnone, hunacked⟩ := hinv.absent j hj
    obtain ⟨hwrote, hacked⟩ := hother j hji
    rw [handlingWrites_concat, handlingAcks_concat, hwrote, hacked, hnone, hunacked]
    exact ⟨rfl, rfl⟩

/-- An event that does nothing. -/
theorem IngestInv.of_nothing {es : List IngestEvent} (hinv : IngestInv decode es) {e : IngestEvent}
    (hsame : (ingestors decode).run (es ++ [e]) = (ingestors decode).run es)
    (hwrites : ∀ i, e.writes i ((ingestors decode).run es) = [])
    (hacks : ∀ i, e.acks i ((ingestors decode).run es) = []) : IngestInv decode (es ++ [e]) :=
  hinv.of_other (by rw [hsame]; exact hinv.reachable) (by simp [hsame])
    (by rw [hsame]; exact List.Subset.refl _)
    hwrites hacks (by rw [hsame])

theorem IngestInv.perform {es : List IngestEvent} (hinv : IngestInv decode es) (i : ℕ) (env : Env)
    (readAt : ℕ) (lost : Option String) : IngestInv decode (es ++ [.perform i env readAt lost]) := by
  have hrun : (ingestors decode).run (es ++ [.perform i env readAt lost]) =
      ((ingestors decode).run es).perform i env readAt lost := (ingestors decode).run_concat es _
  -- What the event writes and acknowledges, by definition.
  have hidle : ((ingestors decode).run es).perform i env readAt lost = (ingestors decode).run es →
      ((ingestors decode).run es).waitsAck i = false →
      IngestInv decode (es ++ [.perform i env readAt lost]) := by
    intro hsame hwaits
    refine hinv.of_nothing (hrun.trans hsame) (fun j => ?_) fun j => ?_
    · refine if_neg fun hc => hc.2 ?_
      rw [hsame]
    · refine if_neg fun hc => ?_
      rw [← hc.1, hwaits] at hc
      exact Bool.false_ne_true hc.2
  cases hi : ((ingestors decode).run es).handlings[i]? with
  | none =>
    refine hidle ?_ ?_
    · unfold IngestState.perform
      rw [hi]
    · unfold IngestState.waitsAck
      rw [hi]
      rfl
  | some h =>
    obtain ⟨fields, hhandled⟩ := hinv.handled i h hi
    rcases advance_perform hinv.reachable hi hhandled.stage env readAt lost with
      ⟨hsame, hwaits⟩ | ⟨plane, program, hstep, hadvance, hstored⟩
    · exact hidle hsame hwaits
    · have hplane : (((ingestors decode).run es).perform i env readAt lost).plane = plane := by
        rw [hstep]; rfl
      refine hinv.of_advance hi hhandled plane (hrun.trans hstep) hadvance (fun j => ?_) fun j hacked => ?_
      · change (if i = j ∧ _ then _ else _) = _
        rw [hplane]
        by_cases hij : i = j
        · subst hij
          rfl
        · rw [if_neg fun hc => hij hc.1, if_neg fun hc => hij hc.1.symm]
      · by_contra hc
        refine hacked (if_neg fun hboth => hc ?_)
        obtain ⟨rfl, hwaits⟩ := hboth
        exact ⟨rfl, hstored hwaits⟩

theorem IngestInv.fail {es : List IngestEvent} (hinv : IngestInv decode es) (i : ℕ) (name : String) :
    IngestInv decode (es ++ [.fail i name]) := by
  have hrun : (ingestors decode).run (es ++ [.fail i name]) =
      ((ingestors decode).run es).fail i name := (ingestors decode).run_concat es _
  have hidle : ((ingestors decode).run es).fail i name = (ingestors decode).run es →
      IngestInv decode (es ++ [.fail i name]) := by
    intro hsame
    refine hinv.of_nothing (hrun.trans hsame) (fun j => ?_) fun _ => rfl
    refine if_neg fun hc => hc.2 ?_
    rw [hsame]
  cases hi : ((ingestors decode).run es).handlings[i]? with
  | none =>
    refine hidle ?_
    unfold IngestState.fail
    rw [hi]
  | some h =>
    obtain ⟨fields, hhandled⟩ := hinv.handled i h hi
    rcases advance_fail hi hhandled.stage name with hsame | ⟨program, hstep, hstage, hafter⟩
    · exact hidle hsame
    · have hplane : (((ingestors decode).run es).fail i name).plane =
          ((ingestors decode).run es).plane := by rw [hstep]; rfl
      refine hinv.of_advance hi hhandled ((ingestors decode).run es).plane
        (hrun.trans hstep) ?_ (fun j => ?_) fun j hacked => absurd rfl hacked
      · exact ⟨hinv.reachable, List.Subset.refl _, hstage,
          fun hb => absurd hb (by rw [hafter]; exact Bool.false_ne_true), .inl rfl⟩
      · change (if i = j ∧ _ then _ else _) = _
        rw [hplane, if_neg fun hc => hc.2 rfl, if_neg fun hc => hc.2 rfl]

theorem IngestInv.deliver {es : List IngestEvent} (hinv : IngestInv decode es) (entry : ℕ) :
    IngestInv decode (es ++ [.deliver entry]) := by
  have hrun : (ingestors decode).run (es ++ [.deliver entry]) =
      ((ingestors decode).run es).deliver decode entry := (ingestors decode).run_concat es _
  unfold IngestState.deliver at hrun
  split at hrun
  · rename_i fields hfields
    have hplane : ((ingestors decode).run (es ++ [.deliver entry])).plane =
        ((ingestors decode).run es).plane := by rw [hrun]
    have hentries : ((ingestors decode).run (es ++ [.deliver entry])).entries =
        ((ingestors decode).run es).entries := by rw [hrun]
    have hhandlings : ((ingestors decode).run (es ++ [.deliver entry])).handlings =
        ((ingestors decode).run es).handlings ++
          [{ entry, program := handleEntry decode fields }] := by rw [hrun]
    refine ⟨by rw [hplane]; exact hinv.reachable, fun i h hi => ?_, fun i hi => ?_⟩
    · rw [hhandlings] at hi
      rcases getElem?_append_one hi with hold | ⟨rfl, rfl⟩
      · obtain ⟨fields', hhandled⟩ := hinv.handled i h hold
        exact ⟨fields', hhandled.keep (hentries ▸ List.prefix_refl _)
          (by rw [hplane]; exact List.Subset.refl _) rfl rfl⟩
      · -- A new handling has done nothing.
        obtain ⟨hnone, hunacked⟩ := hinv.absent _ (List.getElem?_eq_none (Nat.le_refl _))
        have hwrites : handlingWrites decode ((ingestors decode).run es).handlings.length
            (es ++ [.deliver entry]) = [] := by
          rw [handlingWrites_concat, hnone]
          rfl
        refine ⟨fields, by rw [hentries]; exact hfields, stage_handleEntry fields, fun _ => hwrites,
          .inl hwrites, .inl ?_⟩
        rw [handlingAcks_concat, hunacked]
        rfl
    · rw [hhandlings, List.getElem?_eq_none_iff, List.length_append] at hi
      obtain ⟨hnone, hunacked⟩ := hinv.absent i (List.getElem?_eq_none (by omega))
      rw [handlingWrites_concat, handlingAcks_concat, hnone, hunacked]
      exact ⟨rfl, rfl⟩
  · exact hinv.of_nothing hrun (fun _ => rfl) fun _ => rfl

/-- **Every event keeps the invariant.** -/
theorem IngestInv.step {es : List IngestEvent} (hinv : IngestInv decode es) (e : IngestEvent) :
    IngestInv decode (es ++ [e]) := by
  cases e with
  | plane e =>
    have hrun : (ingestors decode).run (es ++ [.plane e]) =
        { (ingestors decode).run es with plane := ControlPlane.step ((ingestors decode).run es).plane e } :=
      (ingestors decode).run_concat es _
    refine hinv.of_other (by rw [hrun]; exact hinv.reachable.step e)
      (by simp [hrun]) ?_ (fun _ => rfl) (fun _ => rfl) (by rw [hrun])
    rw [hrun]
    exact eventKeys_step (sound_of_reachable hinv.reachable) e
  | add fields =>
    have hrun : (ingestors decode).run (es ++ [.add fields]) =
        { (ingestors decode).run es with
          entries := ((ingestors decode).run es).entries ++ [fields] } :=
      (ingestors decode).run_concat es _
    exact hinv.of_other (by rw [hrun]; exact hinv.reachable) (by rw [hrun]; exact List.prefix_append _ _)
      (by rw [hrun]; exact List.Subset.refl _) (fun _ => rfl) (fun _ => rfl) (by rw [hrun])
  | deliver entry => exact hinv.deliver entry
  | perform i env readAt lost => exact hinv.perform i env readAt lost
  | fail i name => exact hinv.fail i name

theorem ingestInv_of_run (es : List IngestEvent) : IngestInv decode es := by
  induction es using List.reverseRecOn with
  | nil => exact ⟨machine.reachable_run [], fun _ _ h => absurd h (by simp [ingestors, Machine.run]),
      fun _ _ => ⟨rfl, rfl⟩⟩
  | append_singleton es e ih => exact ih.step e

/-- A run with an attempt, whose event is delivered and stored, and whose
`XACK` fails. -/
def unacknowledgedRun : List IngestEvent := [
  .plane (.confirm (envAt 0) (smallConfirm "key") 0),
  .plane (claimAt 1000 0 1 1),
  .add ["data", "event"],
  .deliver 0,
  .perform 0 (envAt 2000) 2 none,
  .perform 0 (envAt 2000) 2 none,
  .perform 0 (envAt 2000) 2 none,
  .fail 0 "ConnectionError"]

/-- A parser that reads one event in whatever it is given. -/
def readsEvent : Option String → Decoded := fun _ => .event 0 {
  attemptId := ⟨0, 0⟩, attemptSequence := 1, type := .modelCall, payload := "payload"
  idempotencyKey := .text "attempt:1:1", occurredAt := 1500 }

/-- **A handling may fail after its commit**: it ends with an error, and the
run has one event more. -/
theorem failed_after_commit :
    ¬ ∀ (decode : Option String → Decoded) (es : List IngestEvent) (i : ℕ) (h : EntryHandling),
      ((ingestors decode).run es).handlings[i]? = some h →
      h.program.outcome? = some (.ok .failed) →
      handlingWrites decode i es = [] ∧ handlingAcks decode i es = [] := by
  intro hall
  obtain ⟨h, hi⟩ : ∃ h, ((ingestors readsEvent).run unacknowledgedRun).handlings[0]? = some h :=
    ⟨_, rfl⟩
  have hfailed : (((ingestors readsEvent).run unacknowledgedRun).handlings[0]?).map
      (·.program.outcome?) = some (some (.ok .failed)) := rfl
  rw [hi, Option.map_some, Option.some.injEq] at hfailed
  have hnone := congrArg List.length (hall readsEvent unacknowledgedRun 0 h hi hfailed).1
  have hone : (handlingWrites readsEvent 0 unacknowledgedRun).length = 1 := by decide
  rw [hone] at hnone
  exact absurd hnone (by decide)

/-- **Ingestion stores each event once.** Over any run of the consumers
beside the control plane, no two events share a key, an entry that holds an
event is acknowledged only once the event is stored, and a handling changes
nothing but that it stores the event of its entry, under the number that
follows. As long as the event is not stored, it has changed nothing and
acknowledged nothing. -/
theorem ingestion_exactly_once (decode : Option String → Decoded) (es : List IngestEvent) :
    ((ingestors decode).run es).plane.db.eventKeys.Nodup ∧
      ∀ i h, ((ingestors decode).run es).handlings[i]? = some h →
        ∃ fields, ((ingestors decode).run es).entries[h.entry]? = some fields ∧
          Once decode es i (decode (dataField fields)) ∧
          ∀ runId event, decode (dataField fields) = .event runId event →
            event.idempotencyKey ∉ ((ingestors decode).run es).plane.db.eventKeys →
            handlingWrites decode i es = [] ∧ handlingAcks decode i es = [] := by
  have hinv : IngestInv decode es := ingestInv_of_run es
  refine ⟨(keysApart_of_reachable hinv.reachable).nodup, fun i h hi => ?_⟩
  obtain ⟨fields, hhandled⟩ := hinv.handled i h hi
  refine ⟨fields, hhandled.entry, hhandled.once, fun runId event hd hmissing => ⟨?_, ?_⟩⟩
  · rcases hhandled.once.writes with hnone | ⟨runId', event', -, -, hd', -, -, hmem⟩
    · exact hnone
    · obtain ⟨rfl, rfl⟩ := Decoded.event.inj (hd.symm.trans hd')
      exact absurd hmem hmissing
  · rcases hhandled.once.acks with hnone | hstored
    · exact hnone
    · exact absurd (hstored runId event hd) hmissing

end ControlPlane

end AgentReliability
