import AgentReliability.Common.Cursor
import AgentReliability.Common.StringNumber
import AgentReliability.ControlPlane.EventLog
/-!
# The event stream

`SseController.stream`: each connection polls the event table by a cursor
and writes what it finds. The client reads one connection at a time, loses
it, and comes back with the last id it received. The control plane goes on
committing meanwhile, and so does a connection the client has left, until
its server learns of it.

The cursor is safe because the log grows at its end only (`EventLog`), so
the development is the cursor library at the key `runSequence`.
-/

namespace AgentReliability

namespace ControlPlane

open Cursor StringNumber

/-! ## One connection -/

/-- What a request for the stream passes. -/
structure StreamRequest where
  /-- The `Last-Event-ID` header. -/
  header : Option String
  /-- The `lastEventId` query parameter. -/
  query : Option String

/-- `Number(header ?? query ?? 0)`, where it is a safe integer that is not
negative, else 0. -/
def StreamRequest.sequence (request : StreamRequest) : ℕ :=
  match request.header.or request.query with
  | some text => ((safeInteger? text).getD 0).toNat
  | none => 0

/-- A call of `stream`, and what it has written to its response. -/
structure Connection where
  /-- The sequence it started after. -/
  start : ℕ
  sequence : ℕ := start
  closed : Bool := false
  /-- The rows an `active` drain has read and not written yet. -/
  reading : Option (List TraceEvent) := none
  sent : List TraceEvent := []

/-- The query of a drain: `runSequence: { gt: sequence }`, ascending, at
most 500 rows. -/
def page (log : List TraceEvent) (sequence : ℕ) : List TraceEvent :=
  ((log.filter fun e => sequence < e.runSequence).mergeSort fun a b =>
    a.runSequence ≤ b.runSequence).take 500

namespace Connection

variable (c : Connection)

/-- A drain starts and reads, unless one is active. -/
def poll (log : List TraceEvent) : Connection :=
  if c.closed ∨ c.reading.isSome then c else { c with reading := some (page log c.sequence) }

/-- The query of the active drain fails. -/
def fail : Connection := { c with reading := none }

/-- The active drain writes its rows, all of them or those before a write
that throws, and moves the cursor with each. A closed one writes nothing. -/
def write (n : ℕ) : Connection :=
  match c.reading with
  | none => c
  | some rows =>
    let written := if c.closed then [] else rows.take n
    { c with
      reading := none
      sent := c.sent ++ written
      sequence := last TraceEvent.runSequence c.sequence written }

/-- The server learns that its client has gone. -/
def close : Connection := { c with closed := true }

end Connection

/-! ## The stream of one client -/

structure StreamState where
  plane : State := {}
  connections : List Connection := []
  /-- The connection the client reads, and how much of what it sent has
  arrived. -/
  listening : Option (ℕ × ℕ) := none
  received : List TraceEvent := []

inductive StreamEvent where
  /-- The control plane goes on. -/
  | plane (e : Event)
  /-- The client connects, or reconnects: with the last id it received in
  the header, beside any query, or in the query. -/
  | connect (inHeader : Bool) (query : Option String)
  /-- The client loses its connection, with all that has not arrived. -/
  | disconnect
  | close (i : ℕ)
  | poll (i : ℕ)
  | fail (i : ℕ)
  | write (i n : ℕ)
  /-- The next event of the client's connection arrives. -/
  | arrive

/-- The committed events of a run. -/
def State.committed (s : State) (runId : RunId) : List TraceEvent :=
  match s.db.runs[runId]? with
  | some r => r.traceEvents
  | none => []

/-- The largest value of an `Int` column. -/
def maxInt : ℕ := 2147483647

/-- A step of the control plane. An increment of `lastSequence` past its
column aborts its transaction. -/
def State.stepInColumn (s : State) (e : Event) : State :=
  if (step s e).db.runs.all fun r => r.run.lastSequence ≤ maxInt then step s e else s

/-- The request of a client that has received events, or its first one. -/
def nextRequest (first : StreamRequest) (received : List TraceEvent) (inHeader : Bool)
    (query : Option String) : StreamRequest :=
  match received.getLast? with
  | none => first
  | some e =>
    if inHeader then ⟨some (toString e.runSequence), query⟩
    else ⟨none, some (toString e.runSequence)⟩

/-- One event. -/
def streamStep (runId : RunId) (first : StreamRequest) (s : StreamState) :
    StreamEvent → StreamState
  | .plane e => { s with plane := s.plane.stepInColumn e }
  | .connect inHeader query =>
    { s with
      connections := s.connections ++
        [{ start := (nextRequest first s.received inHeader query).sequence }]
      listening := some (s.connections.length, 0) }
  | .disconnect => { s with listening := none }
  | .close i => { s with connections := s.connections.modify i (·.close) }
  | .poll i =>
    { s with connections := s.connections.modify i (·.poll (s.plane.committed runId)) }
  | .fail i => { s with connections := s.connections.modify i (·.fail) }
  | .write i n => { s with connections := s.connections.modify i (·.write n) }
  | .arrive =>
    match s.listening with
    | none => s
    | some (i, taken) =>
      match s.connections[i]?.bind (·.sent[taken]?) with
      | none => s
      | some e =>
        { s with listening := some (i, taken + 1), received := s.received ++ [e] }

/-- The client of one run's stream, beside the control plane. -/
def streamMachine (runId : RunId) (first : StreamRequest) : Machine StreamState StreamEvent where
  init := {}
  step := streamStep runId first

/-- What was sent to the client: what it has received, and what is on its
way on the connection it reads. -/
def StreamState.sentToClient (s : StreamState) : List TraceEvent :=
  s.received ++ match s.listening with
    | none => []
    | some (i, taken) => ((s.connections[i]?.map (·.sent)).getD []).drop taken

/-! ## The committed log -/

section

variable {s : State} {runId : RunId}

theorem committed_of_some {r : RunRows} (hr : s.db.runs[runId]? = some r) :
    s.committed runId = r.traceEvents := by
  simp [State.committed, hr]

/-- **The log of a run only grows at its end.** -/
theorem committed_extended (hs : Sound s) (e : Event) :
    s.committed runId <+: (step s e).committed runId := by
  cases hr : s.db.runs[runId]? with
  | none =>
    rw [State.committed, hr]
    exact List.nil_prefix
  | some r =>
    obtain ⟨r', hr', hstep⟩ := rows_step_of_some hs e hr
    rw [committed_of_some hr, committed_of_some hr']
    rcases hstep with rfl | ⟨env, hrow⟩
    · exact List.prefix_rfl
    · obtain ⟨added, hevents, -⟩ := hrow.log
      exact ⟨added, hevents.symm⟩

/-- The numbers of the committed events. -/
theorem numbered_of_reachable (hs : machine.Reachable s) :
    (s.committed runId).map (·.runSequence) = List.range' 1 (s.committed runId).length := by
  obtain ⟨es, rfl⟩ := hs
  cases hr : (machine.run es).db.runs[runId]? with
  | none => simp [State.committed, hr]
  | some r =>
    have hlog := logInv_of_run es hr
    rw [committed_of_some hr, hlog.numbered, hlog.length]

theorem increasing_of_reachable (hs : machine.Reachable s) :
    Increasing TraceEvent.runSequence (s.committed runId) := by
  have hsorted : ((s.committed runId).map (·.runSequence)).Pairwise (· < ·) := by
    rw [numbered_of_reachable hs]
    exact List.pairwise_lt_range'
  exact List.pairwise_map.mp hsorted

/-- **A page is what comes next after the cursor.** The rows are in order
already, and the limit cuts off the end. -/
theorem page_eq {log : List TraceEvent} (h : Increasing TraceEvent.runSequence log) (c : ℕ) :
    page log c = (after TraceEvent.runSequence c log).take 500 := by
  have hsorted : (log.filter fun e => c < e.runSequence).Pairwise
      fun a b => decide (a.runSequence ≤ b.runSequence) = true :=
    (h.sublist List.filter_sublist).imp fun hlt => by simpa using Nat.le_of_lt hlt
  rw [page, List.mergeSort_of_pairwise hsorted]
  rfl

end

/-! ## The invariant of the stream -/

/-- What a connection has sent, and is about to, goes on from its start. -/
structure Connection.Inv (log : List TraceEvent) (c : Connection) : Prop where
  sent : c.sent <+: after TraceEvent.runSequence c.start log
  sequence : c.sequence = last TraceEvent.runSequence c.start c.sent
  reading : ∀ rows ∈ c.reading, rows <+: after TraceEvent.runSequence c.sequence log

namespace Connection.Inv

variable {log log' : List TraceEvent} {c : Connection}

theorem of_extended (h : c.Inv log) (hlog : log <+: log') : c.Inv log' where
  sent := h.sent.trans (after_mono hlog)
  sequence := h.sequence
  reading := fun rows hrows => (h.reading rows hrows).trans (after_mono hlog)

theorem opened (log : List TraceEvent) (start : ℕ) : ({ start } : Connection).Inv log where
  sent := List.nil_prefix
  sequence := rfl
  reading := fun rows hrows => absurd hrows (by simp)

theorem poll (h : c.Inv log) (hlog : Increasing TraceEvent.runSequence log) :
    (c.poll log).Inv log := by
  unfold Connection.poll
  split
  · exact h
  · refine ⟨h.sent, h.sequence, fun rows hrows => ?_⟩
    rw [← Option.some.inj hrows, page_eq hlog]
    exact List.take_prefix _ _

theorem fail (h : c.Inv log) : c.fail.Inv log :=
  ⟨h.sent, h.sequence, fun rows hrows => absurd hrows (by simp [Connection.fail])⟩

theorem close (h : c.Inv log) : c.close.Inv log := ⟨h.sent, h.sequence, h.reading⟩

theorem write (h : c.Inv log) (hlog : Increasing TraceEvent.runSequence log) (n : ℕ) :
    (c.write n).Inv log := by
  unfold Connection.write
  split
  · exact h
  · rename_i rows hrows
    have hwritten : (if c.closed then [] else rows.take n) <+:
        after TraceEvent.runSequence (last TraceEvent.runSequence c.start c.sent) log := by
      rw [← h.sequence]
      split
      · exact List.nil_prefix
      · have hfirst : rows.take n <+: rows := List.take_prefix n rows
        exact hfirst.trans (h.reading rows hrows)
    refine ⟨append_page hlog h.sent hwritten, ?_, fun rows hrows => absurd hrows (by simp)⟩
    change last _ c.sequence _ = _
    rw [last_append, h.sequence]

end Connection.Inv

/-- A connection goes on: from the same start, with nothing taken back. -/
structure Connection.GoesOn (c d : Connection) : Prop where
  start : d.start = c.start
  sent : c.sent <+: d.sent

theorem Connection.GoesOn.poll (c : Connection) (log : List TraceEvent) :
    c.GoesOn (c.poll log) := by
  unfold Connection.poll
  split <;> exact ⟨rfl, List.prefix_rfl⟩

theorem Connection.GoesOn.write (c : Connection) (n : ℕ) : c.GoesOn (c.write n) := by
  unfold Connection.write
  split
  · exact ⟨rfl, List.prefix_rfl⟩
  · exact ⟨rfl, List.prefix_append _ _⟩

/-- **The invariant of the stream.** -/
structure StreamInv (runId : RunId) (first : StreamRequest) (s : StreamState) : Prop where
  reachable : machine.Reachable s.plane
  fits : ∀ r ∈ s.plane.db.runs, r.run.lastSequence ≤ maxInt
  connections : ∀ c ∈ s.connections, c.Inv (s.plane.committed runId)
  received : s.received <+:
    after TraceEvent.runSequence first.sequence (s.plane.committed runId)
  listening : ∀ i taken, s.listening = some (i, taken) → ∃ c, s.connections[i]? = some c ∧
    taken ≤ c.sent.length ∧
    last TraceEvent.runSequence first.sequence s.received =
      last TraceEvent.runSequence c.start (c.sent.take taken)

namespace StreamInv

variable {runId : RunId} {first : StreamRequest} {s : StreamState}

theorem increasing (h : StreamInv runId first s) :
    Increasing TraceEvent.runSequence (s.plane.committed runId) :=
  increasing_of_reachable h.reachable

/-- The numbers of the committed events are in the range of their column. -/
theorem runSequence_le (h : StreamInv runId first s) {e : TraceEvent}
    (he : e ∈ s.plane.committed runId) : e.runSequence ≤ maxInt := by
  have hnumber : e.runSequence ∈ (s.plane.committed runId).map (·.runSequence) :=
    List.mem_map_of_mem he
  rw [numbered_of_reachable h.reachable, List.mem_range'_1] at hnumber
  obtain ⟨es, hes⟩ := h.reachable
  cases hr : s.plane.db.runs[runId]? with
  | none =>
    rw [State.committed, hr] at he
    exact absurd he List.not_mem_nil
  | some r =>
    have hlog := logInv_of_run (r := r) es (by rw [hes]; exact hr)
    rw [committed_of_some hr, hlog.length] at hnumber
    have := h.fits r (List.mem_of_getElem? hr)
    omega

theorem init : StreamInv runId first (streamMachine runId first).init where
  reachable := machine.reachable_run []
  fits := fun r hr => absurd hr (by simp [streamMachine])
  connections := fun c hc => absurd hc (by simp [streamMachine])
  received := List.nil_prefix
  listening := fun i taken h => absurd h (by simp [streamMachine])

/-- The control plane goes on. -/
theorem plane (h : StreamInv runId first s) (e : Event) :
    StreamInv runId first { s with plane := s.plane.stepInColumn e } := by
  unfold State.stepInColumn
  split
  · rename_i hfits
    have hlog : s.plane.committed runId <+: (step s.plane e).committed runId :=
      committed_extended (sound_of_reachable h.reachable) e
    refine ⟨?_, ?_, ?_, h.received.trans (after_mono hlog), h.listening⟩
    · obtain ⟨es, hes⟩ := h.reachable
      exact ⟨es ++ [e], by rw [machine.run_concat, hes]; rfl⟩
    · intro r hr
      simpa using List.all_eq_true.mp hfits r hr
    · exact fun c hc => (h.connections c hc).of_extended hlog
  · exact h

/-- One connection goes on. -/
theorem modify (h : StreamInv runId first s) (i : ℕ) {f : Connection → Connection}
    (hinv : ∀ c, c.Inv (s.plane.committed runId) → (f c).Inv (s.plane.committed runId))
    (hgoesOn : ∀ c : Connection, c.GoesOn (f c)) :
    StreamInv runId first { s with connections := s.connections.modify i f } := by
  have hget : ∀ {j : ℕ} {c : Connection}, s.connections[j]? = some c →
      ∃ d, (s.connections.modify i f)[j]? = some d ∧ c.GoesOn d := by
    intro j c hc
    rw [List.getElem?_modify, hc]
    by_cases hij : i = j
    · exact ⟨f c, by simp [hij], hgoesOn c⟩
    · exact ⟨c, by simp [hij], rfl, List.prefix_rfl⟩
  refine ⟨h.reachable, h.fits, fun d hd => ?_, h.received, fun j taken hj => ?_⟩
  · obtain ⟨j, hj⟩ := List.getElem?_of_mem hd
    rw [List.getElem?_modify] at hj
    obtain ⟨c, hc, rfl⟩ := Option.map_eq_some_iff.mp hj
    have hc' := h.connections c (List.mem_of_getElem? hc)
    split
    · exact hinv c hc'
    · exact hc'
  · obtain ⟨c, hc, htaken, hlast⟩ := h.listening j taken hj
    obtain ⟨d, hd, hstart, rest, hsent⟩ := hget hc
    refine ⟨d, hd, ?_, ?_⟩
    · rw [← hsent, List.length_append]
      omega
    · -- What has arrived is a prefix of what was sent before.
      rw [hlast, hstart, ← hsent, List.take_append_of_le_length htaken]

/-- **A reconnection starts after the last event received.** -/
theorem sequence_nextRequest (h : StreamInv runId first s) (inHeader : Bool)
    (query : Option String) :
    (nextRequest first s.received inHeader query).sequence =
      last TraceEvent.runSequence first.sequence s.received := by
  unfold nextRequest last
  cases hlast : s.received.getLast? with
  | none => rfl
  | some e =>
    have hmem : e ∈ s.plane.committed runId :=
      (List.mem_filter.mp (h.received.subset (List.mem_of_getLast? hlast))).1
    -- The id is in the range of its column, so its digits are read back as it.
    have hsafe : e.runSequence ≤ maxSafeInteger :=
      (h.runSequence_le hmem).trans (by decide)
    have hread : ((safeInteger? (toString e.runSequence)).getD 0).toNat = e.runSequence := by
      rw [safeInteger_toString hsafe]
      rfl
    cases inHeader with
    | false => exact hread
    | true => exact hread

theorem connect (h : StreamInv runId first s) (inHeader : Bool) (query : Option String) :
    StreamInv runId first (streamStep runId first s (.connect inHeader query)) := by
  refine ⟨h.reachable, h.fits, fun c hc => ?_, h.received, fun i taken hi => ?_⟩
  · rcases List.mem_append.mp hc with hc | hc
    · exact h.connections c hc
    · rw [List.mem_singleton.mp hc]
      exact .opened _ _
  · obtain ⟨rfl, rfl⟩ := Prod.mk.inj (Option.some.inj hi)
    refine ⟨_, List.getElem?_concat_length, Nat.zero_le _, ?_⟩
    exact (h.sequence_nextRequest inHeader query).symm

/-- **An event that arrives is the one that comes next.** -/
theorem arrive (h : StreamInv runId first s) :
    StreamInv runId first (streamStep runId first s .arrive) := by
  simp only [streamStep]
  split
  · exact h
  · rename_i i taken hlistening
    split
    · exact h
    · rename_i e he
      obtain ⟨c, hc, htaken, hlast⟩ := h.listening i taken hlistening
      rw [hc, Option.bind_some] at he
      have hsent := (h.connections c (List.mem_of_getElem? hc)).sent
      have htake : c.sent.take (taken + 1) = c.sent.take taken ++ [e] := by
        rw [List.take_add_one, he]
        rfl
      refine ⟨h.reachable, h.fits, h.connections, ?_, fun j taken' hj => ?_⟩
      · refine next_of_last_eq h.increasing h.received (take_read hsent taken) hlast ?_
        rw [← htake]
        exact take_read hsent (taken + 1)
      · obtain ⟨rfl, rfl⟩ := Prod.mk.inj (Option.some.inj hj)
        refine ⟨c, hc, (List.getElem?_eq_some_iff.mp he).1, ?_⟩
        rw [htake]
        simp

/-- **Every event of the stream keeps the invariant.** -/
theorem step (h : StreamInv runId first s) (e : StreamEvent) :
    StreamInv runId first (streamStep runId first s e) := by
  cases e with
  | plane e => exact h.plane e
  | connect inHeader query => exact h.connect inHeader query
  | disconnect =>
    refine ⟨h.reachable, h.fits, h.connections, h.received, fun i taken hi => ?_⟩
    have hnone : none = some (i, taken) := hi
    exact absurd hnone (by simp)
  | close i => exact h.modify i (fun _ hc => hc.close) fun _ => ⟨rfl, List.prefix_rfl⟩
  | poll i => exact h.modify i (fun _ hc => hc.poll h.increasing) fun c => .poll c _
  | fail i => exact h.modify i (fun _ hc => hc.fail) fun _ => ⟨rfl, List.prefix_rfl⟩
  | write i n => exact h.modify i (fun _ hc => hc.write h.increasing n) fun c => .write c n
  | arrive => exact h.arrive

end StreamInv

theorem streamInv_of_run (runId : RunId) (first : StreamRequest) (es : List StreamEvent) :
    StreamInv runId first ((streamMachine runId first).run es) :=
  (streamMachine runId first).invariant StreamInv.init (fun _ e h => h.step e)
    ((streamMachine runId first).reachable_run es)

/-- **What was sent to the client goes on from its start**, and so does what
is still on its way. -/
theorem StreamInv.sentToClient {runId : RunId} {first : StreamRequest} {s : StreamState}
    (h : StreamInv runId first s) : s.sentToClient <+:
      after TraceEvent.runSequence first.sequence (s.plane.committed runId) := by
  unfold StreamState.sentToClient
  split
  · rw [List.append_nil]
    exact h.received
  · rename_i i taken hlistening
    obtain ⟨c, hc, htaken, hlast⟩ := h.listening i taken hlistening
    have hsent := (h.connections c (List.mem_of_getElem? hc)).sent
    rw [hc, Option.map_some, Option.getD_some]
    refine next_of_last_eq h.increasing h.received (take_read hsent taken) hlast ?_
    rw [List.take_append_drop]
    exact hsent

/-! ## The client catches up -/

/-- The event is one of the control plane's. -/
def StreamEvent.isPlane : StreamEvent → Bool
  | plane _ => true
  | _ => false

/-- `n` drains of a connection, each of which succeeds. -/
def drains (i : ℕ) : ℕ → List StreamEvent
  | 0 => []
  | n + 1 => .poll i :: .write i 500 :: drains i n

/-- A reconnection, enough drains, and the arrival of what they send. -/
def catchUp (i n : ℕ) : List StreamEvent :=
  .connect true none :: (drains i n ++ List.replicate n .arrive)

/-- The client catches up by itself. -/
theorem isPlane_of_mem_catchUp {i n : ℕ} : ∀ e ∈ catchUp i n, e.isPlane = false := by
  have hdrains : ∀ k : ℕ, ∀ e ∈ drains i k, e.isPlane = false := by
    intro k
    induction k with
    | zero => exact fun e he => absurd he List.not_mem_nil
    | succ k ih =>
      intro e he
      rcases List.mem_cons.mp he with rfl | he
      · rfl
      · rcases List.mem_cons.mp he with rfl | he
        · rfl
        · exact ih e he
  intro e he
  rcases List.mem_cons.mp he with rfl | he
  · rfl
  · rcases List.mem_append.mp he with he | he
    · exact hdrains n e he
    · rw [List.eq_of_mem_replicate he]
      rfl

/-- The idle connection at position `i` has sent the first `k` events after
its start. -/
def Drained (log : List TraceEvent) (start k : ℕ) (c : Connection) : Prop :=
  c.closed = false ∧ c.reading = none ∧ c.start = start ∧
    c.sent = (after TraceEvent.runSequence start log).take k

section

variable {runId : RunId} {first : StreamRequest} {log : List TraceEvent} {start k : ℕ}

/-- **A drain sends the next 500 events.** -/
theorem Drained.drain {c : Connection} (hlog : Increasing TraceEvent.runSequence log)
    (hinv : c.Inv log) (h : Drained log start k c) :
    Drained log start (k + 500) ((c.poll log).write 500) := by
  obtain ⟨hopen, hidle, rfl, hsent⟩ := h
  have hrest : after TraceEvent.runSequence c.sequence log =
      (after TraceEvent.runSequence c.start log).drop k := by
    rw [hinv.sequence, after_last hlog hinv.sent, hsent, List.length_take]
    rcases Nat.le_total k (after TraceEvent.runSequence c.start log).length with hk | hk
    · rw [Nat.min_eq_left hk]
    · rw [Nat.min_eq_right hk, List.drop_length, List.drop_eq_nil_of_le hk]
  have hpoll : c.poll log = { c with reading := some (page log c.sequence) } := by
    simp [Connection.poll, hopen, hidle]
  rw [hpoll]
  refine ⟨hopen, rfl, rfl, ?_⟩
  change c.sent ++ (if c.closed then [] else (page log c.sequence).take 500) = _
  rw [hopen, page_eq hlog, hrest, List.take_take, Nat.min_self, hsent, List.take_add]
  rfl

/-- The drains of a connection touch nothing else. -/
theorem runFrom_drains (n : ℕ) {s : StreamState} (hs : StreamInv runId first s) {i : ℕ}
    {c : Connection} (hc : s.connections[i]? = some c)
    (h : Drained (s.plane.committed runId) start k c) :
    ∃ (d : Connection) (s' : StreamState), (streamMachine runId first).runFrom s (drains i n) = s' ∧
      StreamInv runId first s' ∧ s'.plane = s.plane ∧ s'.received = s.received ∧
      s'.listening = s.listening ∧ s'.connections[i]? = some d ∧
      Drained (s.plane.committed runId) start (k + 500 * n) d := by
  induction n generalizing s c k with
  | zero => exact ⟨c, s, rfl, hs, rfl, rfl, rfl, hc, h⟩
  | succ n ih =>
    have hone := h.drain hs.increasing (hs.connections c (List.mem_of_getElem? hc))
    have hs₂ := (hs.step (.poll i)).step (.write i 500)
    obtain ⟨d, s', hrun, hinv, hplane, hreceived, hlistening, hd, hdrained⟩ := ih hs₂
      (c := (c.poll (s.plane.committed runId)).write 500)
      (by simp [streamStep, hc]) hone
    refine ⟨d, s', hrun, hinv, hplane, hreceived, hlistening, hd, ?_⟩
    have hcount : k + 500 * (n + 1) = k + 500 + 500 * n := by omega
    rw [hcount]
    exact hdrained

/-- What a connection has sent arrives. -/
theorem runFrom_arrivals (n : ℕ) {s : StreamState} {i taken : ℕ} {c : Connection}
    (hc : s.connections[i]? = some c) (hlistening : s.listening = some (i, taken))
    (hn : c.sent.length ≤ taken + n) :
    ((streamMachine runId first).runFrom s (List.replicate n .arrive)).received =
      s.received ++ c.sent.drop taken := by
  induction n generalizing s taken with
  | zero =>
    rw [List.drop_eq_nil_of_le (by omega), List.append_nil]
    rfl
  | succ n ih =>
    rw [List.replicate_succ, Machine.runFrom_cons]
    cases he : c.sent[taken]? with
    | none =>
      have hstay : (streamMachine runId first).step s .arrive = s := by
        simp [streamMachine, streamStep, hlistening, hc, he]
      have hle := List.getElem?_eq_none_iff.mp he
      rw [hstay]
      exact ih hc hlistening (by omega)
    | some e =>
      have hnext : (streamMachine runId first).step s .arrive =
          { s with listening := some (i, taken + 1), received := s.received ++ [e] } := by
        simp [streamMachine, streamStep, hlistening, hc, he]
      have hlt := (List.getElem?_eq_some_iff.mp he).1
      have hrest := @ih { s with listening := some (i, taken + 1), received := s.received ++ [e] }
        (taken + 1) hc rfl (by omega)
      rw [hnext, hrest, List.append_assoc, List.drop_eq_getElem_cons hlt,
        (List.getElem?_eq_some_iff.mp he).2]
      rfl

/-- **Once the queries succeed, the client has every committed event after
its start.** -/
theorem received_of_catchUp {s : StreamState} (hs : StreamInv runId first s) {n : ℕ}
    (hn : (s.plane.committed runId).length ≤ n) :
    ((streamMachine runId first).runFrom s (catchUp s.connections.length n)).received =
      after TraceEvent.runSequence first.sequence (s.plane.committed runId) := by
  have hs₁ := hs.connect true none
  have hstart := hs.sequence_nextRequest true none
  let c : Connection := { start := (nextRequest first s.received true none).sequence }
  have hidle : Drained (s.plane.committed runId) c.start 0 c := ⟨rfl, rfl, rfl, rfl⟩
  obtain ⟨d, s', hrun, -, -, hreceived, hlistening, hd, -, -, -, hsent⟩ :=
    runFrom_drains n hs₁ List.getElem?_concat_length hidle
  have hshort : (after TraceEvent.runSequence c.start (s.plane.committed runId)).length ≤ n :=
    (List.length_filter_le _ _).trans hn
  have hall : d.sent = after TraceEvent.runSequence c.start (s.plane.committed runId) := by
    refine Eq.trans hsent ?_
    change List.take _ (after _ c.start (s.plane.committed runId)) = _
    exact List.take_of_length_le (by omega)
  have hlistening' : s'.listening = some (s.connections.length, 0) := hlistening
  have hreceived' : s'.received = s.received := hreceived
  rw [catchUp, Machine.runFrom_cons, Machine.runFrom_append]
  change ((streamMachine runId first).runFrom ((streamMachine runId first).runFrom
    (streamStep runId first s (.connect true none)) _) _).received = _
  rw [hrun, runFrom_arrivals n hd hlistening' (by rw [hall]; omega), hreceived', hall,
    List.drop_zero]
  -- The connection started where the client had stopped.
  change s.received ++ after _ (nextRequest first s.received true none).sequence _ = _
  rw [hstart, after_last hs.increasing hs.received]
  obtain ⟨rest, hrest⟩ := hs.received
  rw [← hrest, List.drop_left]

end

/-! ## The result -/

/-- **The event stream has no gap, no duplicate and no reordering.** In every
reachable control plane the committed events of a run are numbered `1..m`,
`lastSequence` is `m`, and later commits only append. So, whatever the
schedule, what was sent to the client and did not get lost is a prefix of
the committed events after its start, in their order, and so is what each
connection has sent after its own start; and once the queries succeed, the
client has all of them. -/
theorem stream_exact :
    (∀ (es : List Event) (runId : RunId) (r : RunRows),
      (machine.run es).db.runs[runId]? = some r →
        r.traceEvents.map (·.runSequence) = List.range' 1 r.run.lastSequence ∧
        ∀ fs : List Event,
          (machine.run es).committed runId <+: (machine.run (es ++ fs)).committed runId) ∧
    ∀ (runId : RunId) (first : StreamRequest) (es : List StreamEvent),
      ((streamMachine runId first).run es).sentToClient <+:
        (((streamMachine runId first).run es).plane.committed runId).filter
          (fun e => first.sequence < e.runSequence) ∧
      (∀ c ∈ ((streamMachine runId first).run es).connections, c.sent <+:
        (((streamMachine runId first).run es).plane.committed runId).filter
          fun e => c.start < e.runSequence) ∧
      ∃ fs : List StreamEvent, (∀ f ∈ fs, f.isPlane = false) ∧
        ((streamMachine runId first).run (es ++ fs)).received =
          (((streamMachine runId first).run es).plane.committed runId).filter
            fun e => first.sequence < e.runSequence := by
  refine ⟨fun es runId r hr => ⟨(logInv_of_run es hr).numbered, fun fs => ?_⟩,
    fun runId first es => ?_⟩
  · rw [machine.run_append]
    exact machine.runFrom_rel (P := Sound)
      (R := fun s s' => s.committed runId <+: s'.committed runId)
      (fun _ => List.prefix_rfl) List.IsPrefix.trans (fun _ e h => h.step e)
      (fun _ e h => committed_extended h e) (sound_of_reachable (machine.reachable_run es)) fs
  · have hs := streamInv_of_run runId first es
    refine ⟨hs.sentToClient, fun c hc => (hs.connections c hc).sent,
      catchUp ((streamMachine runId first).run es).connections.length
        (((streamMachine runId first).run es).plane.committed runId).length,
      isPlane_of_mem_catchUp, ?_⟩
    · rw [Machine.run_append]
      exact received_of_catchUp hs le_rfl

end ControlPlane

end AgentReliability
