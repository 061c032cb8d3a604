import AgentReliability.ControlPlane.Ingestion
/-!
# One consumer of the trace events

`TraceEventIngestor.consumeLoop` claims the entries that were left pending
for 30 seconds, handles them in order, reads up to 50 new ones, and handles
these. An entry whose handling fails stays pending while the rest of its
batch goes on. So of one attempt's events a later one may be stored before
an earlier one, which then gets the higher number.

The stream, its consumer group and the loop are one machine, beside the
control plane. It is the only writer of a runtime's events.
-/

namespace AgentReliability

namespace ControlPlane

/-! ## The loop -/

/-- Where the entries of a batch came from. -/
inductive BatchSource where
  /-- `XAUTOCLAIM` -/
  | claimed
  /-- `XREADGROUP` from `>` -/
  | fresh
  deriving DecidableEq, Repr

inductive Loop where
  /-- Before the `XAUTOCLAIM`. -/
  | claiming
  /-- Before the `XREADGROUP`. -/
  | reading
  /-- In a batch: the handling under way, and the entries after it. -/
  | batch (source : BatchSource) (current : Option EntryHandling) (rest : List ℕ)

structure Consumer where
  plane : State := {}
  /-- The `trace-events` stream: the fields of each entry. -/
  entries : List (List String) := []
  /-- How many entries the group was given. -/
  delivered : ℕ := 0
  /-- The entries that are pending, oldest first, and when each was last
  handed out. -/
  pending : List (ℕ × Time) := []
  loop : Loop := .claiming

inductive ConsumerEvent where
  /-- The rest of the control plane. -/
  | plane (e : Event)
  /-- `XADD`, by any producer. -/
  | add (fields : List String)
  /-- The `XAUTOCLAIM`, whose answer may be lost. -/
  | claim (now : Time) (lost : Bool)
  /-- The `XREADGROUP`, whose answer may be lost. -/
  | read (now : Time) (lost : Bool)
  /-- The loop goes on to the next entry of its batch, or past it. -/
  | next
  /-- The effect the handling waits for is had, and answered, or the answer
  is lost. -/
  | perform (env : Env) (readAt : ℕ) (lost : Option String)
  /-- The effect the handling waits for fails. -/
  | fail (name : String)
  /-- The process stops, and another one is started. -/
  | restart

namespace Consumer

variable (c : Consumer)

/-- The entries an `XAUTOCLAIM` hands out: it looks at 500 pending ones, and
takes up to 50 that are idle for 30 seconds. -/
def idle (now : Time) : List ℕ :=
  (((c.pending.take 500).filter fun p => p.2 + 30000 ≤ now).take 50).map (·.1)

/-- The entries an `XREADGROUP` hands out. -/
def fresh : List ℕ := List.range' c.delivered (min 50 (c.entries.length - c.delivered))

/-- The handling that is under way, as the only one. -/
def ingest (h : EntryHandling) : IngestState := ⟨c.plane, c.entries, [h]⟩

/-- After a step of the handling. What it throws ends the batch. -/
def handled (source : BatchSource) (rest : List ℕ) (s : IngestState) : Consumer :=
  { c with
    plane := s.plane
    loop := match s.handlings[0]? with
      | none => .batch source none rest
      | some h =>
        match h.program with
        | .ret _ => .batch source none rest
        | .raise _ => .claiming
        | .perform _ _ => .batch source (some h) rest }

/-- `XACK`. -/
def ack (entry : ℕ) : Consumer := { c with pending := c.pending.filter fun p => p.1 ≠ entry }

/-- The `XAUTOCLAIM`. -/
def claim (now : Time) (lost : Bool) : Consumer :=
  match c.loop with
  | .claiming =>
    { c with
      pending := c.pending.map fun p => if p.1 ∈ c.idle now then (p.1, now) else p
      loop := if lost then .claiming else .batch .claimed none (c.idle now) }
  | _ => c

/-- The `XREADGROUP`. -/
def read (now : Time) (lost : Bool) : Consumer :=
  match c.loop with
  | .reading =>
    { c with
      delivered := c.delivered + c.fresh.length
      pending := c.pending ++ c.fresh.map fun k => (k, now)
      loop := if lost then .claiming else .batch .fresh none c.fresh }
  | _ => c

/-- On to the next entry of the batch, or past it. -/
def next (decode : Option String → Decoded) : Consumer :=
  match c.loop with
  | .batch source none (k :: rest) =>
    match c.entries[k]? with
    | some fields => c.handled source rest (c.ingest ⟨k, handleEntry decode fields⟩)
    | none => { c with loop := .batch source none rest }
  | .batch .claimed none [] => { c with loop := .reading }
  | .batch .fresh none [] => { c with loop := .claiming }
  | _ => c

def perform (env : Env) (readAt : ℕ) (lost : Option String) : Consumer :=
  match c.loop with
  | .batch source (some h) rest =>
    let c' := c.handled source rest ((c.ingest h).perform 0 env readAt lost)
    if (c.ingest h).waitsAck 0 then c'.ack h.entry else c'
  | _ => c

def fail (name : String) : Consumer :=
  match c.loop with
  | .batch source (some h) rest => c.handled source rest ((c.ingest h).fail 0 name)
  | _ => c

end Consumer

variable (decode : Option String → Decoded)

def consumerStep (c : Consumer) : ConsumerEvent → Consumer
  | .plane e =>
    match e.writer with
    | .runtime _ => c
    | _ => { c with plane := step c.plane e }
  | .add fields => { c with entries := c.entries ++ [fields] }
  | .claim now lost => c.claim now lost
  | .read now lost => c.read now lost
  | .next => c.next decode
  | .perform env readAt lost => c.perform env readAt lost
  | .fail name => c.fail name
  | .restart => { c with loop := .claiming }

/-- The consumer beside the control plane. -/
def consumer : Machine Consumer ConsumerEvent where
  init := {}
  step := consumerStep decode

/-! ## The events of an attempt -/

/-- The event of an attempt that an entry holds. -/
def Consumer.event? (c : Consumer) (a : AttemptId) (k : ℕ) : Option ReportedEvent :=
  c.entries[k]?.bind fun fields =>
    match decode (dataField fields) with
    | .event runId event =>
      if runId = a.runId ∧ event.attemptId = a then some event else none
    | _ => none

/-- The attempt's events are numbered in the order of the stream. -/
def Emitted (a : AttemptId) (c : Consumer) : Prop :=
  ∀ j k event event', j < k → c.event? decode a j = some event → c.event? decode a k = some event' →
    event.attemptSequence < event'.attemptSequence

/-- A stored event that an attempt's runtime has emitted. -/
def TraceEvent.EmittedBy (e : TraceEvent) (a : AttemptId) : Prop :=
  e.attemptId = some a ∧ ∃ key, e.idempotencyKey = .text key

/-- **The order of an attempt's events is preserved** in the table. -/
def OrderPreserved (a : AttemptId) (s : State) : Prop :=
  ∀ r, s.db.runs[a.runId]? = some r → ∀ e ∈ r.traceEvents, ∀ e' ∈ r.traceEvents,
    e.EmittedBy a → e'.EmittedBy a → e.runSequence < e'.runSequence →
      e.attemptSequence < e'.attemptSequence

/-- The transaction a step has: its entry, and the event. -/
def Consumer.stores? (c : Consumer) : ConsumerEvent → Option (ℕ × RunId × ReportedEvent)
  | .perform _ _ _ =>
    match c.loop with
    | .batch _ (some h) _ =>
      match h.program.effect? with
      | some (.store runId event) => some (h.entry, runId, event)
      | _ => none
    | _ => none
  | _ => none

/-- **The condition on a step**: as an event of the attempt is stored, no
earlier one is left pending that is not. -/
def InTurn (a : AttemptId) (c : Consumer) (e : ConsumerEvent) : Prop :=
  ∀ x ∈ c.stores? e, x.2.1 = a.runId ∧ x.2.2.attemptId = a →
    ∀ j < x.1, ∀ earlier ∈ c.event? decode a j,
      j ∈ c.pending.map (·.1) → earlier.idempotencyKey ∈ c.plane.db.eventKeys

instance decidableInTurn (a : AttemptId) (c : Consumer) (e : ConsumerEvent) :
    Decidable (InTurn decode a c e) :=
  inferInstanceAs (Decidable (∀ x ∈ c.stores? e, x.2.1 = a.runId ∧ x.2.2.attemptId = a →
    ∀ j < x.1, ∀ earlier ∈ c.event? decode a j,
      j ∈ c.pending.map (·.1) → earlier.idempotencyKey ∈ c.plane.db.eventKeys))

/-! ## The table, against the stream -/

/-- The entries of the attempt before a position are stored. -/
def StoredBefore (E : ℕ → Option ReportedEvent) (keys : List EventKey) (k : ℕ) : Prop :=
  ∀ j < k, ∀ event, E j = some event → event.idempotencyKey ∈ keys

/-- A row is of the event an entry holds. -/
def Carries (E : ℕ → Option ReportedEvent) (k : ℕ) (e : TraceEvent) : Prop :=
  ∃ event, E k = some event ∧ e.attemptSequence = event.attemptSequence ∧
    e.idempotencyKey = event.idempotencyKey

/-- **The rows of the attempt stand in the order of the stream**, and none
is ahead of an entry that is still to be stored. -/
structure InStreamOrder (E : ℕ → Option ReportedEvent) (a : AttemptId) (keys : List EventKey)
    (events : List TraceEvent) : Prop where
  held : ∀ e ∈ events, e.EmittedBy a → ∃ k, Carries E k e ∧ StoredBefore E keys k
  pairwise : events.Pairwise fun e e' => e.EmittedBy a → e'.EmittedBy a →
    ∃ j k, j < k ∧ Carries E j e ∧ Carries E k e'

namespace InStreamOrder

variable {E : ℕ → Option ReportedEvent} {a : AttemptId} {keys : List EventKey}
  {events : List TraceEvent}

theorem mono (h : InStreamOrder E a keys events) {keys' : List EventKey} (hkeys : keys ⊆ keys') :
    InStreamOrder E a keys' events := by
  refine ⟨fun e he hemitted => ?_, h.pairwise⟩
  obtain ⟨k, hcarries, hbefore⟩ := h.held e he hemitted
  exact ⟨k, hcarries, fun j hj event hevent => hkeys (hbefore j hj event hevent)⟩

/-- Rows that are not of the attempt's runtime. -/
theorem append_own (h : InStreamOrder E a keys events) {added : List TraceEvent}
    (hadded : ∀ e ∈ added, ¬ e.EmittedBy a) : InStreamOrder E a keys (events ++ added) := by
  refine ⟨fun e he hemitted => ?_, ?_⟩
  · rcases List.mem_append.mp he with he | he
    · exact h.held e he hemitted
    · exact absurd hemitted (hadded e he)
  · refine List.pairwise_append.mpr ⟨h.pairwise, ?_, fun e _ e' he' _ hemitted => ?_⟩
    · exact List.pairwise_of_forall_mem_list fun e he e' _ hemitted _ => absurd hemitted (hadded e he)
    · exact absurd hemitted (hadded e' he')

/-- **The event of the next entry in turn**, under a key that was free. -/
theorem append_event (h : InStreamOrder E a keys events)
    (hkeys : ∀ e ∈ events, e.idempotencyKey ∈ keys) {k : ℕ} {event : ReportedEvent}
    (hk : E k = some event) (hfree : event.idempotencyKey ∉ keys) (hbefore : StoredBefore E keys k)
    (n : ℕ) : InStreamOrder E a keys (events ++ [event.row n]) := by
  have hcarries : Carries E k (event.row n) := ⟨event, hk, rfl, rfl⟩
  refine ⟨fun e he hemitted => ?_, ?_⟩
  · rcases List.mem_append.mp he with he | he
    · exact h.held e he hemitted
    · rw [List.mem_singleton.mp he]
      exact ⟨k, hcarries, hbefore⟩
  · refine List.pairwise_append.mpr ⟨h.pairwise, List.pairwise_singleton _ _, ?_⟩
    intro e he e' he' hemitted _
    rw [List.mem_singleton.mp he']
    obtain ⟨j, hj, hjbefore⟩ := h.held e he hemitted
    refine ⟨j, k, ?_, hj, hcarries⟩
    -- Were the row of a later entry, this one would be stored.
    by_contra hjk
    rcases Nat.lt_or_ge k j with hlt | hge
    · exact hfree (hjbefore k hlt event hk)
    · obtain rfl : j = k := by omega
      obtain ⟨event', hevent', -, hkey⟩ := hj
      rw [hk] at hevent'
      rw [Option.some.inj hevent', ← hkey] at hfree
      exact hfree (hkeys e he)

/-- A longer stream. -/
theorem extend (h : InStreamOrder E a keys events) {E' : ℕ → Option ReportedEvent} {n : ℕ}
    (hsame : ∀ k < n, E' k = E k) (hnone : ∀ k, n ≤ k → E k = none) :
    InStreamOrder E' a keys events := by
  have hlt : ∀ {k e}, Carries E k e → k < n := by
    rintro k e ⟨event, hevent, -⟩
    by_contra hge
    rw [hnone k (by omega)] at hevent
    exact absurd hevent (by simp)
  have hcarries : ∀ {k e}, Carries E k e → Carries E' k e := by
    intro k e hk
    have hkn := hlt hk
    obtain ⟨event, hevent, hrow⟩ := hk
    exact ⟨event, (hsame k hkn).trans hevent, hrow⟩
  refine ⟨fun e he hemitted => ?_, h.pairwise.imp ?_⟩
  · obtain ⟨k, hk, hbefore⟩ := h.held e he hemitted
    refine ⟨k, hcarries hk, fun j hj event hevent => hbefore j hj event ?_⟩
    have hkn := hlt hk
    rw [← hsame j (by omega)]
    exact hevent
  · intro e e' hpair hemitted hemitted'
    obtain ⟨j, k, hjk, hj, hk⟩ := hpair hemitted hemitted'
    exact ⟨j, k, hjk, hcarries hj, hcarries hk⟩

end InStreamOrder

/-- The table of a control plane, as far as it is of the attempt. -/
def TableInOrder (E : ℕ → Option ReportedEvent) (a : AttemptId) (s : State) : Prop :=
  ∀ r, s.db.runs[a.runId]? = some r → InStreamOrder E a s.db.eventKeys r.traceEvents

/-- The control plane's own events are under keys of its own. -/
theorem not_emittedBy_of_own {ctx : Context} {e : TraceEvent} (h : OwnEvent ctx e) (a : AttemptId) :
    ¬ e.EmittedBy a := by
  rintro ⟨-, key, hkey⟩
  rw [h] at hkey
  exact absurd hkey (by simp)

/-- **The rest of the control plane stores no event of a runtime.** -/
theorem TableInOrder.plane {E : ℕ → Option ReportedEvent} {a : AttemptId} {s : State}
    (hs : machine.Reachable s) (h : TableInOrder E a s) {e : Event}
    (he : ∀ key, e.writer ≠ .runtime key) : TableInOrder E a (step s e) := by
  have hsound := sound_of_reachable hs
  intro r' hr'
  rcases rows_step hsound e hr' with ⟨env, -, hcreates⟩ | hold | ⟨env, r, hr, hrow, -⟩
  · have hown : InStreamOrder E a (step s e).db.eventKeys [] := ⟨by simp, List.Pairwise.nil⟩
    have hadded : ∀ e ∈ r'.traceEvents, ¬ e.EmittedBy a := fun e he =>
      not_emittedBy_of_own ((Creates.log hcreates).2.1 e he).1 a
    have hlog := hown.append_own hadded
    rwa [List.nil_append] at hlog
  · exact (h r' hold).mono (eventKeys_step hsound e)
  · obtain ⟨added, hevents, -, -, hkeys⟩ := hrow.log
    rw [hevents]
    refine ((h r hr).mono (eventKeys_step hsound e)).append_own fun x hx => ?_
    have hown := hkeys x hx
    cases hw : e.writer with
    | runtime key => exact absurd hw (he key)
    | _ =>
      rw [hw] at hown
      exact not_emittedBy_of_own hown a

/-- **The transaction of a handling**, for an entry that is in its turn. -/
theorem TableInOrder.store {E : ℕ → Option ReportedEvent} {a : AttemptId} {s : State}
    (hs : machine.Reachable s) (h : TableInOrder E a s) (env : Env) {runId : RunId}
    {event : ReportedEvent}
    (hturn : runId = a.runId → event.attemptId = a →
      ∃ k, E k = some event ∧ StoredBefore E s.db.eventKeys k) :
    TableInOrder E a (s.storeEvent env runId event).1 := by
  rcases storeEvent_cases hs env runId event with ⟨r, n, hr, hfree, hruns, -, -⟩ | ⟨e, heq, -⟩
  · have hkeys : s.db.eventKeys ⊆ (s.storeEvent env runId event).1.db.eventKeys := by
      rw [storeEvent_eq_step hs]
      exact eventKeys_step (sound_of_reachable hs) _
    intro r' hr'
    rw [hruns] at hr'
    rcases getElem?_set_one hr' with hold | ⟨hrun, rfl⟩
    · exact (h r' hold).mono hkeys
    · have hbefore := h r (hrun ▸ hr)
      show InStreamOrder E a _ (r.traceEvents ++ [event.row (r.run.lastSequence + 1)])
      by_cases hattempt : event.attemptId = a
      · obtain ⟨k, hk, hstored⟩ := hturn hrun.symm hattempt
        refine (hbefore.append_event (fun e he => ?_) hk hfree hstored _).mono hkeys
        exact Database.mem_eventKeys.mpr ⟨runId, r, hr, List.mem_map_of_mem he⟩
      · refine (hbefore.mono hkeys).append_own fun e he hemitted => ?_
        rw [List.mem_singleton.mp he] at hemitted
        exact hattempt (Option.some.inj hemitted.1)
  · rw [heq]
    exact h

/-! ## The consumer -/

/-- What a perform does to the control plane: nothing, unless it is the
transaction. -/
theorem perform_plane (s : IngestState) {h : EntryHandling} (hi : s.handlings[0]? = some h) (env : Env)
    (readAt : ℕ) (lost : Option String) :
    (s.perform 0 env readAt lost).plane = s.plane ∨
      ∃ runId event, h.program.effect? = some (.store runId event) ∧
        (s.perform 0 env readAt lost).plane = (s.plane.storeEvent env runId event).1 := by
  obtain ⟨entry, program⟩ := h
  unfold IngestState.perform
  rw [hi]
  cases program with
  | ret x => exact .inl rfl
  | raise e => exact .inl rfl
  | perform effect k =>
    cases effect with
    | store runId event => exact .inr ⟨runId, event, rfl, rfl⟩
    | find key => exact .inl rfl
    | publish runId stored => exact .inl rfl
    | ack => exact .inl rfl

/-- What a transaction stores is the event of its entry. -/
theorem IngestStage.of_store {s : State} {d : Decoded} {program : IngestProgram Handled}
    (h : IngestStage s d program) {runId : RunId} {event : ReportedEvent}
    (heffect : program.effect? = some (.store runId event)) : d = .event runId event := by
  cases h with
  | ended hended =>
    rw [hended] at heffect
    exact absurd heffect (by simp)
  | storing =>
    obtain ⟨rfl, rfl⟩ := IngestEffect.store.inj (Option.some.inj heffect)
    rfl
  | _ => exact absurd (Option.some.inj heffect) (by simp)

/-- What is known of a consumer, and the attempt's events in its table. -/
structure ConsumerInv (a : AttemptId) (c : Consumer) : Prop where
  reachable : machine.Reachable c.plane
  delivered_le : c.delivered ≤ c.entries.length
  pending : ∀ p ∈ c.pending, p.1 < c.delivered
  /-- An entry that was handed out is pending until its event is stored. -/
  kept : ∀ j < c.delivered, j ∈ c.pending.map (·.1) ∨
    ∀ event, c.event? decode a j = some event → event.idempotencyKey ∈ c.plane.db.eventKeys
  rest : ∀ source current rest, c.loop = .batch source current rest → ∀ k ∈ rest, k < c.delivered
  current : ∀ source h rest, c.loop = .batch source (some h) rest →
    h.entry < c.delivered ∧ ∃ fields, c.entries[h.entry]? = some fields ∧
      IngestStage c.plane (decode (dataField fields)) h.program
  table : TableInOrder (c.event? decode a) a c.plane

variable {decode} {a : AttemptId} {c : Consumer}

/-- The event of an entry, from what the parser makes of it. -/
theorem event?_eq_some {k : ℕ} {event : ReportedEvent} :
    c.event? decode a k = some event ↔ event.attemptId = a ∧ ∃ fields, c.entries[k]? = some fields ∧
      decode (dataField fields) = .event a.runId event := by
  unfold Consumer.event?
  rw [Option.bind_eq_some_iff]
  constructor
  · rintro ⟨fields, hfields, hevent⟩
    split at hevent
    · rename_i runId event' hdecode
      split at hevent
      · rename_i hof
        obtain rfl := Option.some.inj hevent
        exact ⟨hof.2, fields, hfields, by rw [hdecode, hof.1]⟩
      · exact absurd hevent (by simp)
    · exact absurd hevent (by simp)
  · rintro ⟨hattempt, fields, hfields, hdecode⟩
    refine ⟨fields, hfields, ?_⟩
    rw [hdecode]
    exact if_pos ⟨rfl, hattempt⟩

theorem Stored.event? {s : State} {k : ℕ} {fields : List String} (hfields : c.entries[k]? = some fields)
    (h : Stored s (decode (dataField fields))) {event : ReportedEvent}
    (hevent : c.event? decode a k = some event) : event.idempotencyKey ∈ s.db.eventKeys := by
  obtain ⟨-, fields', hfields', hdecode⟩ := event?_eq_some.mp hevent
  rw [hfields] at hfields'
  obtain rfl := Option.some.inj hfields'
  exact h a.runId event hdecode

namespace ConsumerInv

/-- After a step of the handling of an entry. -/
theorem handled (h : ConsumerInv decode a c) {k : ℕ} (hk : k < c.delivered) {fields : List String}
    (hfields : c.entries[k]? = some fields) {source : BatchSource} {rest : List ℕ}
    (hrest : ∀ k ∈ rest, k < c.delivered) {plane : State} {program : IngestProgram Handled}
    (hreach : machine.Reachable plane) (hkeys : c.plane.db.eventKeys ⊆ plane.db.eventKeys)
    (hstage : IngestStage plane (decode (dataField fields)) program)
    (htable : TableInOrder (c.event? decode a) a plane) :
    ConsumerInv decode a (c.handled source rest ⟨plane, c.entries, [⟨k, program⟩]⟩) := by
  refine ⟨hreach, h.delivered_le, h.pending, fun j hj => ?_, ?_, ?_, htable⟩
  · exact (h.kept j hj).imp_right fun hstored event hevent => hkeys (hstored event hevent)
  · intro source' current' rest' hloop
    cases program with
    | ret x =>
      obtain ⟨-, -, rfl⟩ := Loop.batch.inj hloop
      exact hrest
    | raise e => exact absurd hloop (by simp [Consumer.handled])
    | perform effect f =>
      obtain ⟨-, -, rfl⟩ := Loop.batch.inj hloop
      exact hrest
  · intro source' h' rest' hloop
    cases program with
    | ret x => exact absurd (Loop.batch.inj hloop).2.1 (by simp)
    | raise e => exact absurd hloop (by simp [Consumer.handled])
    | perform effect f =>
      obtain ⟨-, hcurrent, -⟩ := Loop.batch.inj hloop
      rw [← Option.some.inj hcurrent]
      exact ⟨hk, fields, hfields, hstage⟩

/-- The entry is acknowledged once its event is stored. -/
theorem ack (h : ConsumerInv decode a c) {k : ℕ}
    (hstored : ∀ event, c.event? decode a k = some event → event.idempotencyKey ∈ c.plane.db.eventKeys) :
    ConsumerInv decode a (c.ack k) := by
  refine ⟨h.reachable, h.delivered_le, fun p hp => h.pending p (List.mem_filter.mp hp).1,
    fun j hj => ?_, h.rest, h.current, h.table⟩
  by_cases hjk : j = k
  · subst hjk
    exact .inr hstored
  · refine (h.kept j hj).imp_left fun hpending => ?_
    obtain ⟨p, hp, rfl⟩ := List.mem_map.mp hpending
    exact List.mem_map_of_mem (List.mem_filter.mpr ⟨hp, by simpa using hjk⟩)

/-- The loop is outside a batch. -/
theorem outside (h : ConsumerInv decode a c) {loop : Loop}
    (hloop : ∀ source current rest, loop ≠ .batch source current rest) :
    ConsumerInv decode a { c with loop } :=
  ⟨h.reachable, h.delivered_le, h.pending, h.kept, fun _ _ _ hc => absurd hc (hloop _ _ _),
    fun _ _ _ hc => absurd hc (hloop _ _ _), h.table⟩

theorem plane (h : ConsumerInv decode a c) {e : Event} (he : ∀ key, e.writer ≠ .runtime key) :
    ConsumerInv decode a { c with plane := step c.plane e } := by
  have hkeys := eventKeys_step (sound_of_reachable h.reachable) e
  refine ⟨h.reachable.step e, h.delivered_le, h.pending, fun j hj => ?_, h.rest, ?_,
    h.table.plane h.reachable he⟩
  · exact (h.kept j hj).imp_right fun hstored event hevent => hkeys (hstored event hevent)
  · intro source x rest hloop
    obtain ⟨hlt, fields, hfields, hstage⟩ := h.current source x rest hloop
    exact ⟨hlt, fields, hfields, hstage.mono hkeys⟩

theorem add (h : ConsumerInv decode a c) (fields : List String) :
    ConsumerInv decode a { c with entries := c.entries ++ [fields] } := by
  have hsame : ∀ k < c.entries.length,
      ({ c with entries := c.entries ++ [fields] } : Consumer).event? decode a k =
        c.event? decode a k := by
    intro k hk
    unfold Consumer.event?
    rw [List.getElem?_append_left hk]
  have hdelivered := h.delivered_le
  refine ⟨h.reachable, ?_, h.pending, fun j hj => ?_, h.rest, ?_, ?_⟩
  · show c.delivered ≤ (c.entries ++ [fields]).length
    rw [List.length_append, List.length_singleton]
    omega
  · rw [hsame j (show j < c.entries.length by have : j < c.delivered := hj; omega)]
    exact h.kept j hj
  · intro source x rest hloop
    obtain ⟨hlt, fields', hfields', hstage⟩ := h.current source x rest hloop
    refine ⟨hlt, fields', ?_, hstage⟩
    show (c.entries ++ [fields])[x.entry]? = _
    rw [List.getElem?_append_left (List.getElem?_eq_some_iff.mp hfields').1]
    exact hfields'
  · intro r hr
    refine (h.table r hr).extend hsame fun k hk => ?_
    unfold Consumer.event?
    rw [List.getElem?_eq_none hk]
    rfl

theorem claim (h : ConsumerInv decode a c) (now : Time) (lost : Bool) :
    ConsumerInv decode a (c.claim now lost) := by
  unfold Consumer.claim
  split
  · have hfst : (c.pending.map fun p => if p.1 ∈ c.idle now then (p.1, now) else p).map (·.1) =
        c.pending.map (·.1) := by
      rw [List.map_map]
      refine List.map_congr_left fun p _ => ?_
      show (if p.1 ∈ c.idle now then (p.1, now) else p).1 = p.1
      split <;> rfl
    have hpending : ∀ k ∈ c.pending.map (·.1), k < c.delivered := by
      intro k hk
      obtain ⟨p, hp, rfl⟩ := List.mem_map.mp hk
      exact h.pending p hp
    have hidle : ∀ k ∈ c.idle now, k < c.delivered := by
      intro k hk
      obtain ⟨p, hp, rfl⟩ := List.mem_map.mp hk
      exact h.pending p (List.mem_of_mem_take (List.mem_filter.mp (List.mem_of_mem_take hp)).1)
    refine ⟨h.reachable, h.delivered_le, fun p hp => ?_, fun j hj => ?_, ?_, ?_, h.table⟩
    · refine hpending p.1 ?_
      rw [← hfst]
      exact List.mem_map_of_mem hp
    · show j ∈ (c.pending.map fun p => if p.1 ∈ c.idle now then (p.1, now) else p).map (·.1) ∨ _
      rw [hfst]
      exact h.kept j hj
    · intro source current rest hloop
      cases lost with
      | true => exact absurd hloop (by simp)
      | false =>
        obtain ⟨-, -, rfl⟩ := Loop.batch.inj hloop
        exact hidle
    · intro source x rest hloop
      cases lost with
      | true => exact absurd hloop (by simp)
      | false => exact absurd (Loop.batch.inj hloop).2.1 (by simp)
  · exact h

theorem read (h : ConsumerInv decode a c) (now : Time) (lost : Bool) :
    ConsumerInv decode a (c.read now lost) := by
  unfold Consumer.read
  split
  · have hlength : c.fresh.length = min 50 (c.entries.length - c.delivered) := List.length_range'
    have hfresh : ∀ k ∈ c.fresh, k < c.delivered + c.fresh.length := by
      intro k hk
      rw [hlength]
      have := List.mem_range'_1.mp hk
      omega
    have hdelivered := h.delivered_le
    refine ⟨h.reachable, ?_, fun p hp => ?_, fun j hj => ?_, ?_, ?_, h.table⟩
    · show c.delivered + c.fresh.length ≤ c.entries.length
      omega
    · show p.1 < c.delivered + c.fresh.length
      rcases List.mem_append.mp hp with hold | hnew
      · have := h.pending p hold
        omega
      · obtain ⟨k, hk, rfl⟩ := List.mem_map.mp hnew
        exact hfresh k hk
    · have hj : j < c.delivered + c.fresh.length := hj
      rw [List.map_append, List.mem_append, List.map_map]
      rcases Nat.lt_or_ge j c.delivered with hlt | hge
      · exact (h.kept j hlt).imp_left .inl
      · refine .inl (.inr (List.mem_map.mpr ⟨j, List.mem_range'_1.mpr ?_, rfl⟩))
        omega
    · intro source current rest hloop
      cases lost with
      | true => exact absurd hloop (by simp)
      | false =>
        obtain ⟨-, -, rfl⟩ := Loop.batch.inj hloop
        exact hfresh
    · intro source x rest hloop
      cases lost with
      | true => exact absurd hloop (by simp)
      | false => exact absurd (Loop.batch.inj hloop).2.1 (by simp)
  · exact h

theorem next (h : ConsumerInv decode a c) : ConsumerInv decode a (c.next decode) := by
  unfold Consumer.next
  split
  · rename_i source k rest hloop
    have hrest := h.rest source none (k :: rest) hloop
    have htail : ∀ j ∈ rest, j < c.delivered := fun j hj => hrest j (List.mem_cons_of_mem k hj)
    split
    · rename_i fields hfields
      exact h.handled (hrest k List.mem_cons_self) hfields htail h.reachable (List.Subset.refl _)
        (stage_handleEntry fields) h.table
    · refine ⟨h.reachable, h.delivered_le, h.pending, h.kept, ?_, ?_, h.table⟩
      · intro source' current' rest' hbatch
        obtain ⟨-, -, rfl⟩ := Loop.batch.inj hbatch
        exact htail
      · intro source' x rest' hbatch
        exact absurd (Loop.batch.inj hbatch).2.1 (by simp)
  · exact h.outside (by simp)
  · exact h.outside (by simp)
  · exact h

theorem perform (h : ConsumerInv decode a c) (env : Env) (readAt : ℕ) (lost : Option String)
    (hturn : InTurn decode a c (.perform env readAt lost)) :
    ConsumerInv decode a (c.perform env readAt lost) := by
  unfold Consumer.perform
  split
  · rename_i source x rest hloop
    obtain ⟨hlt, fields, hfields, hstage⟩ := h.current source x rest hloop
    have hrest := h.rest source (some x) rest hloop
    have htable : TableInOrder (c.event? decode a) a ((c.ingest x).perform 0 env readAt lost).plane := by
      rcases perform_plane (c.ingest x) (h := x) rfl env readAt lost with
        hsame | ⟨runId, event, heffect, hstore⟩
      · rw [hsame]
        exact h.table
      · rw [hstore]
        refine h.table.store h.reachable env fun hrun hattempt => ⟨x.entry, ?_, ?_⟩
        · -- The event that is stored is the one the entry holds.
          refine event?_eq_some.mpr ⟨hattempt, fields, hfields, ?_⟩
          rw [← hrun]
          exact hstage.of_store heffect
        · intro j hj earlier hearlier
          rcases h.kept j (by omega) with hpending | hstored
          · have hstores : c.stores? (.perform env readAt lost) = some (x.entry, runId, event) := by
              simp only [Consumer.stores?, hloop, heffect]
            exact hturn _ hstores ⟨hrun, hattempt⟩ j hj earlier hearlier hpending
          · exact hstored earlier hearlier
    rcases advance_perform h.reachable (s := c.ingest x) (i := 0) (h := x) rfl hstage env readAt lost with
      ⟨hsame, hwaits⟩ | ⟨plane, program, hstep, hadvance, hacked⟩
    · simp only [hsame, hwaits]
      exact h.handled hlt hfields hrest h.reachable (List.Subset.refl _) hstage h.table
    · rw [hstep] at htable
      have hnext : ConsumerInv decode a
          (c.handled source rest ⟨plane, c.entries, [⟨x.entry, program⟩]⟩) :=
        h.handled hlt hfields hrest hadvance.reachable hadvance.keys hadvance.stage htable
      simp only [hstep]
      split
      · rename_i hwaits
        exact hnext.ack fun event hevent => Stored.event? hfields (hacked hwaits) hevent
      · exact hnext
  · exact h

theorem fail (h : ConsumerInv decode a c) (name : String) :
    ConsumerInv decode a (c.fail name) := by
  unfold Consumer.fail
  split
  · rename_i source x rest hloop
    obtain ⟨hlt, fields, hfields, hstage⟩ := h.current source x rest hloop
    have hrest := h.rest source (some x) rest hloop
    rcases advance_fail (s := c.ingest x) (i := 0) (h := x) rfl hstage name with
      hsame | ⟨program, hstep, hstage', -⟩
    · rw [hsame]
      exact h.handled hlt hfields hrest h.reachable (List.Subset.refl _) hstage h.table
    · rw [hstep]
      exact h.handled hlt hfields hrest h.reachable (List.Subset.refl _) hstage' h.table
  · exact h

/-- **Every step keeps the invariant**, if it is in turn. -/
theorem step (h : ConsumerInv decode a c) (e : ConsumerEvent) (he : InTurn decode a c e) :
    ConsumerInv decode a (consumerStep decode c e) := by
  cases e with
  | plane e =>
    show ConsumerInv decode a (match e.writer with
      | .runtime _ => c
      | _ => { c with plane := ControlPlane.step c.plane e })
    cases hw : e.writer with
    | runtime key => exact h
    | _ => exact h.plane fun key => by rw [hw]; simp
  | add fields => exact h.add fields
  | claim now lost => exact h.claim now lost
  | read now lost => exact h.read now lost
  | next => exact h.next
  | perform env readAt lost => exact h.perform env readAt lost he
  | fail name => exact h.fail name
  | restart => exact h.outside (by simp)

end ConsumerInv

theorem consumerInv_init : ConsumerInv decode a (consumer decode).init where
  reachable := machine.reachable_run []
  delivered_le := Nat.le_refl 0
  pending := by simp [consumer]
  kept := fun j hj => absurd hj (Nat.not_lt_zero j)
  rest := by simp [consumer]
  current := by simp [consumer]
  table := by
    intro r hr
    exact absurd hr (by simp [consumer])

/-- The order of the table, read off its rows. -/
theorem ConsumerInv.orderPreserved (h : ConsumerInv decode a c) (hemitted : Emitted decode a c) :
    OrderPreserved a c.plane := by
  intro r hr e he e' he' hof hof' hlt
  obtain ⟨es, hes⟩ := h.reachable
  have hlog : LogInv r := by
    rw [← hes] at hr
    exact logInv_of_run es hr
  obtain ⟨i, hi⟩ := List.getElem?_of_mem he
  obtain ⟨j, hj⟩ := List.getElem?_of_mem he'
  have hseq : ∀ {k x}, r.traceEvents[k]? = some x → x.runSequence = 1 + k := by
    intro k x hk
    have hnumber : (r.traceEvents.map (·.runSequence))[k]? = some x.runSequence := by
      rw [List.getElem?_map, hk]
      rfl
    rw [hlog.numbered] at hnumber
    obtain ⟨hlen, hvalue⟩ := List.getElem?_eq_some_iff.mp hnumber
    rw [← hvalue, List.getElem_range']
    omega
  have hij : i < j := by
    have h₁ := hseq hi
    have h₂ := hseq hj
    omega
  obtain ⟨hilen, hie⟩ := List.getElem?_eq_some_iff.mp hi
  obtain ⟨hjlen, hje⟩ := List.getElem?_eq_some_iff.mp hj
  have hpair := List.pairwise_iff_getElem.mp (h.table r hr).pairwise i j hilen hjlen hij
  rw [hie, hje] at hpair
  obtain ⟨k, k', hkk, ⟨event, hk, hs, -⟩, ⟨event', hk', hs', -⟩⟩ := hpair hof hof'
  rw [hs, hs']
  exact hemitted k k' event event' hkk hk hk'

/-- **In a run in which no event of the attempt is stored while an earlier
one is left pending**, the table has the attempt's events in their order. -/
theorem orderPreserved_of_inTurn (decode : Option String → Decoded) (a : AttemptId)
    (es : List ConsumerEvent) (hemitted : Emitted decode a ((consumer decode).run es))
    (hturn : (consumer decode).Admits (InTurn decode a) (consumer decode).init es) :
    OrderPreserved a ((consumer decode).run es).plane :=
  ((consumer decode).runFrom_of_admits (P := ConsumerInv decode a)
    (fun _ e h he => h.step e he) consumerInv_init hturn).orderPreserved hemitted

/-! ## Two events -/

/-- An event of the attempt, as its runtime sends it. -/
def sentEvent (attemptSequence : ℕ) (key : String) : ReportedEvent where
  attemptId := ⟨0, 0⟩
  attemptSequence
  type := .modelCall
  payload := "payload"
  idempotencyKey := .text key
  occurredAt := 1500

/-- A parser that knows two events. -/
def readsTwo : Option String → Decoded
  | some "one" => .event 0 (sentEvent 1 "run:1:1")
  | some "two" => .event 0 (sentEvent 2 "run:1:2")
  | _ => .malformed

/-- An attempt whose two events are in the stream, and are handed out. -/
def twoRead : List ConsumerEvent := [
  .plane (.confirm (envAt 0) (smallConfirm "key") 0),
  .plane (claimAt 1000 0 1 1),
  .add ["data", "one"],
  .add ["data", "two"],
  .claim 2000 false,
  .next,
  .read 2000 false]

/-- The handling of one entry. -/
def handledOnce : List ConsumerEvent := [
  .next,
  .perform (envAt 2000) 2 none,
  .perform (envAt 2000) 2 none,
  .perform (envAt 2000) 2 none,
  .perform (envAt 2000) 2 none]

theorem emitted_readsTwo {c : Consumer} (h : c.entries = [["data", "one"], ["data", "two"]]) :
    Emitted readsTwo ⟨0, 0⟩ c := by
  intro j k event event' hjk hj hk
  have hlt : k < 2 := by
    obtain ⟨-, fields, hfields, -⟩ := event?_eq_some.mp hk
    rw [h] at hfields
    exact (List.getElem?_eq_some_iff.mp hfields).1
  obtain rfl : j = 0 := by omega
  obtain rfl : k = 1 := by omega
  have hone : c.event? readsTwo ⟨0, 0⟩ 0 = some (sentEvent 1 "run:1:1") := by
    unfold Consumer.event?
    rw [h]
    rfl
  have htwo : c.event? readsTwo ⟨0, 0⟩ 1 = some (sentEvent 2 "run:1:2") := by
    unfold Consumer.event?
    rw [h]
    rfl
  rw [← Option.some.inj (hone.symm.trans hj), ← Option.some.inj (htwo.symm.trans hk)]
  decide

/-- Handled one after the other, they are stored in their order. -/
theorem orderPreserved_of_handled :
    OrderPreserved ⟨0, 0⟩ ((consumer readsTwo).run (twoRead ++ handledOnce ++ handledOnce)).plane :=
  orderPreserved_of_inTurn readsTwo ⟨0, 0⟩ _ (emitted_readsTwo rfl) (by decide)

/-- The first is looked for while the database is away, and the second is
not; 30 seconds later the first is claimed again. -/
def firstFails : List ConsumerEvent :=
  twoRead ++ [.next, .fail "ConnectionError"] ++ handledOnce ++ [.next, .claim 40000 false] ++
    handledOnce

/-- **The second event has the lower number.** -/
theorem firstFails_not_orderPreserved :
    Emitted readsTwo ⟨0, 0⟩ ((consumer readsTwo).run firstFails) ∧
      ¬ OrderPreserved ⟨0, 0⟩ ((consumer readsTwo).run firstFails).plane := by
  refine ⟨emitted_readsTwo rfl, fun h => ?_⟩
  have hrows : (((consumer readsTwo).run firstFails).plane.db.runs[0]?).map (·.traceEvents.drop 1) =
      some [(sentEvent 2 "run:1:2").row 2, (sentEvent 1 "run:1:1").row 3] := by decide
  obtain ⟨r, hr, hevents⟩ := Option.map_eq_some_iff.mp hrows
  have hmem : ∀ e ∈ r.traceEvents.drop 1, e ∈ r.traceEvents := fun e he => List.mem_of_mem_drop he
  rw [hevents] at hmem
  have hlt := h r hr _ (hmem ((sentEvent 2 "run:1:2").row 2) (by simp)) _
    (hmem ((sentEvent 1 "run:1:1").row 3) (by simp))
    ⟨rfl, "run:1:2", rfl⟩ ⟨rfl, "run:1:1", rfl⟩ (by decide)
  exact absurd hlt (by decide)

end ControlPlane

end AgentReliability
