import AgentReliability.ControlPlane.Sse
/-!
# The timeline of the run page

`RunTimelinePage` shows one list of the query cache, which two writers
update: the fetch of the event list replaces it when it resolves, and
`useRunEvents` merges each event of the stream into it. The stream never
repeats what it has delivered, so what the fetch replaces by less is gone.

The stream is that of `SseController`, with any number of lost and new
connections, beside the control plane.
-/

namespace AgentReliability

namespace Web

open ControlPlane Cursor

/-! ## The page -/

/-- `mergeEvents`. -/
def mergeEvents (existing : Option (List TraceEvent)) (incoming : TraceEvent) : List TraceEvent :=
  let events := existing.getD []
  if events.any fun e => e.runSequence = incoming.runSequence then events
  else (events ++ [incoming]).mergeSort fun a b => a.runSequence ≤ b.runSequence

/-- The list endpoint: the committed events of the run, ascending. -/
def listEvents (log : List TraceEvent) : List TraceEvent :=
  log.mergeSort fun a b => a.runSequence ≤ b.runSequence

/-- The fetch of the list. -/
inductive Fetch where
  | idle
  | issued
  /-- The server has read its answer, which is on its way. -/
  | answered (rows : List TraceEvent)
  | resolved (rows : List TraceEvent)

structure Page where
  stream : StreamState := {}
  /-- `lastSequence.current`. -/
  lastSequence : ℕ := 0
  /-- The data of `['run-events', runId]`. -/
  cache : Option (List TraceEvent) := none
  fetch : Fetch := .idle

/-- The list the page shows. -/
def Page.events (p : Page) : List TraceEvent := p.cache.getD []

/-- The request of a new `EventSource`. -/
def Page.request (p : Page) : StreamRequest :=
  ⟨none, if 0 < p.lastSequence then some (toString p.lastSequence) else none⟩

/-- The listener of `trace`. -/
def Page.receive (p : Page) (event : TraceEvent) : Page :=
  { p with
    lastSequence := max p.lastSequence event.runSequence
    cache := some (mergeEvents p.cache event) }

inductive PageEvent where
  /-- The control plane, the server and the connections go on. -/
  | stream (e : StreamEvent)
  /-- The query is mounted, and fetches. -/
  | issue
  /-- The endpoint reads the table. Without the run, it fails. -/
  | answer
  /-- The fetch fails; it may be issued again. -/
  | fail
  /-- The answer arrives, and is the data of the query. -/
  | resolve

/-- The page is mounted before any event has been received. -/
def firstRequest : StreamRequest := ({} : Page).request

def pageStep (runId : RunId) (p : Page) : PageEvent → Page
  | .stream e =>
    let stream := streamStep runId firstRequest p.stream e
    match stream.received[p.stream.received.length]? with
    | some event => { p with stream }.receive event
    | none => { p with stream }
  | .issue => match p.fetch with
    | .idle => { p with fetch := .issued }
    | _ => p
  | .answer => match p.fetch with
    | .issued => match p.stream.plane.db.runs[runId]? with
      | some _ => { p with fetch := .answered (listEvents (p.stream.plane.committed runId)) }
      | none => { p with fetch := .idle }
    | _ => p
  | .fail => match p.fetch with
    | .resolved _ => p
    | _ => { p with fetch := .idle }
  | .resolve => match p.fetch with
    | .answered rows => { p with cache := some rows, fetch := .resolved rows }
    | _ => p

/-- The page of one run. -/
def timeline (runId : RunId) : Machine Page PageEvent where
  init := {}
  step := pageStep runId

/-! ## Merging into a part of the log -/

section Merging

variable {log : List TraceEvent}

/-- A log that is numbered from 1 on. -/
def Numbered (log : List TraceEvent) : Prop :=
  log.map (·.runSequence) = List.range' 1 log.length

theorem Numbered.runSequence (h : Numbered log) {i : ℕ} {e : TraceEvent} (he : log[i]? = some e) :
    e.runSequence = i + 1 := by
  have hi : i < log.length := (List.getElem?_eq_some_iff.mp he).1
  have hmap : (log.map (·.runSequence))[i]? = some e.runSequence := by
    rw [List.getElem?_map, he]
    rfl
  rw [h, List.getElem?_range' hi] at hmap
  have := Option.some.inj hmap
  omega

theorem Numbered.increasing (h : Numbered log) : Increasing TraceEvent.runSequence log := by
  have hsorted : (log.map (·.runSequence)).Pairwise (· < ·) := by
    rw [h]
    exact List.pairwise_lt_range'
  exact List.pairwise_map.mp hsorted

theorem Numbered.take (h : Numbered log) (n : ℕ) : Numbered (log.take n) := by
  show (log.take n).map (·.runSequence) = _
  rw [List.map_take, h, List.length_take]
  rcases Nat.le_total n log.length with hle | hle
  · rw [List.take_range'_of_length_ge hle, Nat.min_eq_left hle]
  · rw [List.take_range'_of_length_le hle, Nat.min_eq_right hle]

theorem mergeSort_of_increasing (h : Increasing TraceEvent.runSequence log) :
    log.mergeSort (fun a b => a.runSequence ≤ b.runSequence) = log := by
  refine List.mergeSort_of_pairwise (h.imp ?_)
  intro a b hlt
  simpa using Nat.le_of_lt hlt

/-- **The next event extends a list that holds the ones before it**, and is
dropped by one that has it. -/
theorem mergeEvents_take (h : Numbered log) {existing : Option (List TraceEvent)} {k n : ℕ}
    {e : TraceEvent} (hexisting : existing.getD [] = log.take k) (he : log[n]? = some e)
    (hn : n ≤ k) : mergeEvents existing e = log.take (max k (n + 1)) := by
  have hlen : n < log.length := (List.getElem?_eq_some_iff.mp he).1
  have hseq := h.runSequence he
  unfold mergeEvents
  rw [hexisting]
  by_cases hk : n < k
  · -- it is there already
    have hmem : e ∈ log.take k := by
      refine List.mem_of_getElem? (i := n) ?_
      rw [List.getElem?_take_of_lt hk, he]
    have hany : (log.take k).any (fun x => x.runSequence = e.runSequence) = true :=
      List.any_eq_true.mpr ⟨e, hmem, by simp⟩
    have hmax : max k (n + 1) = k := by omega
    rw [if_pos hany, hmax]
  · obtain rfl : k = n := by omega
    have hany : ¬ (log.take k).any (fun x => x.runSequence = e.runSequence) = true := by
      intro hany
      obtain ⟨x, hx, hxe⟩ := List.any_eq_true.mp hany
      obtain ⟨i, hi⟩ := List.getElem?_of_mem hx
      have hik : i < k := by
        have := (List.getElem?_eq_some_iff.mp hi).1
        rw [List.length_take] at this
        omega
      rw [List.getElem?_take_of_lt hik] at hi
      have hxi := h.runSequence hi
      have hsame : x.runSequence = e.runSequence := by simpa using hxe
      omega
    have hnext : log.take k ++ [e] = log.take (k + 1) := by
      rw [List.take_add_one, he]
      rfl
    have hmax : max k (k + 1) = k + 1 := by omega
    rw [if_neg hany, hnext, hmax]
    exact mergeSort_of_increasing (h.take (k + 1)).increasing

end Merging

/-! ## What the page holds -/

variable {runId : RunId} {p : Page}

theorem Numbered.of_prefix {log log' : List TraceEvent} (h : Numbered log') (hlog : log <+: log') :
    Numbered log := by
  obtain ⟨rest, hrest⟩ := hlog
  have htake : log = log'.take log.length := by rw [← hrest, List.take_left]
  rw [htake]
  exact h.take log.length

theorem listEvents_eq {log : List TraceEvent} (h : Numbered log) : listEvents log = log :=
  mergeSort_of_increasing h.increasing

/-- **The invariant of the page**: the cursor is at the last event received,
and until the fetch resolves the cache is what was received. -/
structure PageInv (runId : RunId) (p : Page) : Prop where
  stream : StreamInv runId firstRequest p.stream
  lastSequence : p.lastSequence = p.stream.received.length
  merged : (∀ rows, p.fetch ≠ .resolved rows) → p.events = p.stream.received
  fetched : ∀ rows, p.fetch = .answered rows ∨ p.fetch = .resolved rows →
    rows <+: p.stream.plane.committed runId

namespace PageInv

variable (h : PageInv runId p)

include h

theorem numbered : Numbered (p.stream.plane.committed runId) :=
  numbered_of_reachable h.stream.reachable

/-- What was received is the first part of what is committed. -/
theorem received_prefix : p.stream.received <+: p.stream.plane.committed runId := by
  have hall : after TraceEvent.runSequence 0 (p.stream.plane.committed runId) =
      p.stream.plane.committed runId := by
    refine List.filter_eq_self.mpr ?_
    intro e he
    obtain ⟨i, hi⟩ := List.getElem?_of_mem he
    have := h.numbered.runSequence hi
    simp only [decide_eq_true_eq]
    omega
  have hreceived := h.stream.received
  change _ <+: after TraceEvent.runSequence 0 _ at hreceived
  rw [hall] at hreceived
  exact hreceived

end PageInv

/-! ## The steps -/

/-- What a step of the stream brings: at most one event, and more of the
log. -/
theorem streamStep_received (s : StreamState) (e : StreamEvent) :
    (streamStep runId firstRequest s e).received = s.received ∨
      ∃ event, (streamStep runId firstRequest s e).received = s.received ++ [event] := by
  cases e with
  | arrive =>
    simp only [streamStep]
    split
    · exact .inl rfl
    · split
      · exact .inl rfl
      · exact .inr ⟨_, rfl⟩
  | _ => exact .inl rfl

theorem streamStep_committed {s : StreamState} (h : StreamInv runId firstRequest s)
    (e : StreamEvent) :
    s.plane.committed runId <+: (streamStep runId firstRequest s e).plane.committed runId := by
  cases e with
  | plane e =>
    show _ <+: (s.plane.stepInColumn e).committed runId
    unfold State.stepInColumn
    split
    · exact committed_extended (sound_of_reachable h.reachable) e
    · exact List.prefix_rfl
  | arrive =>
    simp only [streamStep]
    split
    · exact List.prefix_rfl
    · split <;> exact List.prefix_rfl
  | _ => exact List.prefix_rfl

/-- **What a step of the stream does to the page.** Nothing arrives, or the
next event does and is merged. -/
theorem pageStep_stream (h : PageInv runId p) (e : StreamEvent) :
    ((streamStep runId firstRequest p.stream e).received = p.stream.received ∧
      pageStep runId p (.stream e) =
        { p with stream := streamStep runId firstRequest p.stream e }) ∨
    ∃ event, (streamStep runId firstRequest p.stream e).received = p.stream.received ++ [event] ∧
      ((streamStep runId firstRequest p.stream e).plane.committed runId)[p.lastSequence]? =
        some event ∧
      pageStep runId p (.stream e) =
        Page.receive { p with stream := streamStep runId firstRequest p.stream e } event := by
  rcases @streamStep_received runId p.stream e with hsame | ⟨event, hevent⟩
  · refine .inl ⟨hsame, ?_⟩
    simp only [pageStep, hsame, List.getElem?_length]
  · refine .inr ⟨event, hevent, ?_, ?_⟩
    · have hinv : PageInv runId
          { p with
            stream := streamStep runId firstRequest p.stream e
            lastSequence := p.lastSequence + 1
            cache := some (p.stream.received ++ [event])
            fetch := .idle } :=
        ⟨h.stream.step e, by rw [hevent, h.lastSequence]; simp, fun _ => hevent.symm,
          fun rows hrows => by simp at hrows⟩
      obtain ⟨rest, hrest⟩ := hinv.received_prefix
      have hlog : (streamStep runId firstRequest p.stream e).plane.committed runId =
          p.stream.received ++ event :: rest := by
        rw [← hrest]
        show (streamStep runId firstRequest p.stream e).received ++ rest = _
        rw [hevent, List.append_assoc]
        rfl
      rw [hlog, h.lastSequence, List.getElem?_append_right (Nat.le_refl _), Nat.sub_self]
      rfl
    · simp only [pageStep, hevent, List.getElem?_concat_length]

/-- What a list that holds the first events becomes by a merge. -/
theorem receive_events {log : List TraceEvent} (hlog : Numbered log) {k n : ℕ} {event : TraceEvent}
    (hevents : p.events = log.take k) (hevent : log[n]? = some event) (hn : n ≤ k) :
    (p.receive event).events = log.take (max k (n + 1)) :=
  mergeEvents_take hlog hevents hevent hn

theorem PageInv.step (h : PageInv runId p) (e : PageEvent) : PageInv runId (pageStep runId p e) := by
  cases e with
  | stream e =>
    have hstream := h.stream.step e
    have hlog := streamStep_committed h.stream e
    rcases pageStep_stream h e with ⟨hsame, hstep⟩ | ⟨event, hevent, hnext, hstep⟩
    · rw [hstep]
      refine ⟨hstream, ?_, fun hrows => ?_, fun rows hrows => (h.fetched rows hrows).trans hlog⟩
      · show p.lastSequence = (streamStep runId firstRequest p.stream e).received.length
        rw [hsame, h.lastSequence]
      · show p.events = (streamStep runId firstRequest p.stream e).received
        rw [hsame]
        exact h.merged hrows
    · have hnumbered : Numbered ((streamStep runId firstRequest p.stream e).plane.committed runId) :=
        numbered_of_reachable hstream.reachable
      have hseq := hnumbered.runSequence hnext
      rw [hstep]
      refine ⟨hstream, ?_, fun hrows => ?_, fun rows hrows => (h.fetched rows hrows).trans hlog⟩
      · show max p.lastSequence event.runSequence =
          (streamStep runId firstRequest p.stream e).received.length
        rw [hevent, List.length_append, List.length_singleton, ← h.lastSequence]
        omega
      · -- Nothing has replaced the cache: it is what was received.
        have hcache : p.events = ((streamStep runId firstRequest p.stream e).plane.committed
            runId).take p.lastSequence := by
          rw [h.merged hrows, h.lastSequence]
          exact List.prefix_iff_eq_take.mp (h.received_prefix.trans hlog)
        have hmerged := receive_events (p := { p with
          stream := streamStep runId firstRequest p.stream e }) hnumbered hcache hnext (Nat.le_refl _)
        rw [hmerged]
        show _ = (streamStep runId firstRequest p.stream e).received
        have hmax : max p.lastSequence (p.lastSequence + 1) = p.lastSequence + 1 := by omega
        rw [hmax, List.take_add_one, hnext, ← hcache, h.merged hrows, hevent]
        rfl
  | issue =>
    cases hfetch : p.fetch with
    | idle =>
      simp only [pageStep, hfetch]
      exact ⟨h.stream, h.lastSequence, fun _ => h.merged (by simp [hfetch]), by simp⟩
    | _ => simpa only [pageStep, hfetch] using h
  | answer =>
    cases hfetch : p.fetch with
    | issued =>
      simp only [pageStep, hfetch]
      split
      · refine ⟨h.stream, h.lastSequence, fun _ => h.merged (by simp [hfetch]), ?_⟩
        intro rows hrows
        rcases hrows with hrows | hrows
        · rw [← Fetch.answered.inj hrows, listEvents_eq h.numbered]
        · cases hrows
      · exact ⟨h.stream, h.lastSequence, fun _ => h.merged (by simp [hfetch]), by simp⟩
    | _ => simpa only [pageStep, hfetch] using h
  | fail =>
    cases hfetch : p.fetch with
    | resolved rows => simpa only [pageStep, hfetch] using h
    | _ =>
      simp only [pageStep, hfetch]
      exact ⟨h.stream, h.lastSequence, fun _ => h.merged (by simp [hfetch]), by simp⟩
  | resolve =>
    cases hfetch : p.fetch with
    | answered rows =>
      simp only [pageStep, hfetch]
      refine ⟨h.stream, h.lastSequence, fun hrows => absurd rfl (hrows rows), ?_⟩
      intro rows' hrows
      have hsame : rows = rows' := by simpa using hrows
      rw [← hsame]
      exact h.fetched rows (.inl hfetch)
    | _ => simpa only [pageStep, hfetch] using h

theorem pageInv_init (runId : RunId) : PageInv runId (timeline runId).init where
  stream := StreamInv.init
  lastSequence := rfl
  merged := fun _ => rfl
  fetched := fun rows hrows => by simp [timeline] at hrows

theorem pageInv_of_run (runId : RunId) (es : List PageEvent) :
    PageInv runId ((timeline runId).run es) :=
  (timeline runId).invariant (pageInv_init runId) (fun _ e h => h.step e)
    ((timeline runId).reachable_run es)

/-! ## The result -/

/-- The list that arrives reaches as far as the stream has delivered. -/
def Covers (p : Page) : PageEvent → Prop
  | .resolve => ∀ rows, p.fetch = .answered rows → p.lastSequence ≤ rows.length
  | _ => True

/-- How many events the fetched list had, once it is there. -/
def Page.fetchedLength (p : Page) : ℕ :=
  match p.fetch with
  | .resolved rows => rows.length
  | _ => 0

/-- **The cache is exact**: the committed events up to the last one fetched
or delivered. -/
structure Exact (runId : RunId) (p : Page) : Prop where
  events : p.events <+: p.stream.plane.committed runId
  length : p.events.length = max p.fetchedLength p.lastSequence

/-- **The timeline loses nothing.** In every state of the run the list
increases strictly, what was in it stays, and once the fetch has resolved
it is the events `1..n`, where `n` is the last one that was fetched or
delivered. -/
structure KeepsTimeline (runId : RunId) (es : List PageEvent) : Prop where
  increasing : ∀ fs, fs <+: es →
    Increasing TraceEvent.runSequence ((timeline runId).run fs).events
  stays : ∀ fs gs, fs <+: gs → gs <+: es →
    ((timeline runId).run fs).events ⊆ ((timeline runId).run gs).events
  exact : ∀ fs, fs <+: es → ∀ rows, ((timeline runId).run fs).fetch = .resolved rows →
    ((timeline runId).run fs).events.map (·.runSequence) =
      List.range' 1 (max rows.length ((timeline runId).run fs).lastSequence)

theorem Exact.step (hinv : PageInv runId p) (h : Exact runId p) {e : PageEvent}
    (he : Covers p e) :
    Exact runId (pageStep runId p e) ∧ p.events <+: (pageStep runId p e).events := by
  cases e with
  | stream e =>
    have hlog := streamStep_committed hinv.stream e
    rcases pageStep_stream hinv e with ⟨-, hstep⟩ | ⟨event, -, hnext, hstep⟩
    · rw [hstep]
      exact ⟨⟨h.events.trans hlog, h.length⟩, List.prefix_rfl⟩
    · have hnumbered : Numbered ((streamStep runId firstRequest p.stream e).plane.committed runId) :=
        numbered_of_reachable (hinv.stream.step e).reachable
      have hseq := hnumbered.runSequence hnext
      have hcache := List.prefix_iff_eq_take.mp (h.events.trans hlog)
      have hle : p.lastSequence ≤ p.events.length := by
        rw [h.length]
        exact Nat.le_max_right _ _
      have hmerged := receive_events (p := { p with
        stream := streamStep runId firstRequest p.stream e }) hnumbered hcache hnext hle
      have hroom : p.lastSequence <
          ((streamStep runId firstRequest p.stream e).plane.committed runId).length :=
        (List.getElem?_eq_some_iff.mp hnext).1
      have hfits := (h.events.trans hlog).length_le
      rw [hstep]
      refine ⟨⟨?_, ?_⟩, ?_⟩
      · rw [hmerged]
        exact List.take_prefix _ _
      · rw [hmerged, List.length_take]
        show _ = max p.fetchedLength (max p.lastSequence event.runSequence)
        have := h.length
        omega
      · rw [hmerged]
        nth_rewrite 1 [hcache]
        exact List.take_prefix_take_left (Nat.le_max_left _ _)
  | issue =>
    cases hfetch : p.fetch with
    | idle =>
      simp only [pageStep, hfetch]
      refine ⟨⟨h.events, ?_⟩, List.prefix_rfl⟩
      have hlength := h.length
      rwa [Page.fetchedLength, hfetch] at hlength
    | _ =>
      simp only [pageStep, hfetch]
      exact ⟨h, List.prefix_rfl⟩
  | answer =>
    cases hfetch : p.fetch with
    | issued =>
      have hlength := h.length
      rw [Page.fetchedLength, hfetch] at hlength
      simp only [pageStep, hfetch]
      split
      · exact ⟨⟨h.events, hlength⟩, List.prefix_rfl⟩
      · exact ⟨⟨h.events, hlength⟩, List.prefix_rfl⟩
    | _ =>
      simp only [pageStep, hfetch]
      exact ⟨h, List.prefix_rfl⟩
  | fail =>
    cases hfetch : p.fetch with
    | resolved rows =>
      simp only [pageStep, hfetch]
      exact ⟨h, List.prefix_rfl⟩
    | _ =>
      simp only [pageStep, hfetch]
      refine ⟨⟨h.events, ?_⟩, List.prefix_rfl⟩
      have hlength := h.length
      rwa [Page.fetchedLength, hfetch] at hlength
  | resolve =>
    cases hfetch : p.fetch with
    | answered rows =>
      simp only [pageStep, hfetch]
      have hcovers : p.lastSequence ≤ rows.length := he rows hfetch
      have hrows := hinv.fetched rows (.inl hfetch)
      refine ⟨⟨hrows, ?_⟩, ?_⟩
      · show rows.length = max rows.length p.lastSequence
        omega
      · have hlength : p.events.length = max 0 p.lastSequence := by
          have hlength := h.length
          rwa [Page.fetchedLength, hfetch] at hlength
        refine List.prefix_of_prefix_length_le h.events hrows ?_
        show p.events.length ≤ rows.length
        omega
    | _ =>
      simp only [pageStep, hfetch]
      exact ⟨h, List.prefix_rfl⟩

/-- What every state of an admitted run is. -/
theorem exact_of_admits {es : List PageEvent}
    (h : (timeline runId).Admits Covers (timeline runId).init es) :
    Exact runId ((timeline runId).run es) := by
  have hinit : Exact runId (timeline runId).init := ⟨List.nil_prefix, rfl⟩
  have hboth := (timeline runId).runFrom_of_admits (C := Covers)
    (P := fun p => PageInv runId p ∧ Exact runId p)
    (fun p e hp he => ⟨hp.1.step e, (hp.2.step hp.1 he).1⟩) ⟨pageInv_init runId, hinit⟩ h
  exact hboth.2

theorem events_of_admits {fs gs : List PageEvent}
    (h : (timeline runId).Admits Covers (timeline runId).init (fs ++ gs)) :
    ((timeline runId).run fs).events <+: ((timeline runId).run (fs ++ gs)).events := by
  obtain ⟨hfs, hgs⟩ := (timeline runId).admits_append.mp h
  have hall := (timeline runId).runFrom_of_admits (C := Covers)
    (P := fun p => PageInv runId p ∧ Exact runId p ∧
      ((timeline runId).run fs).events <+: p.events)
    (fun p e hp he => ⟨hp.1.step e, (hp.2.1.step hp.1 he).1,
      hp.2.2.trans (hp.2.1.step hp.1 he).2⟩)
    ⟨pageInv_of_run runId fs, exact_of_admits hfs, List.prefix_rfl⟩ hgs
  rw [Machine.run_append]
  exact hall.2.2

/-- A list that arrives replaces what was received, so it has it. -/
theorem KeepsTimeline.covers {before after : List PageEvent}
    (h : KeepsTimeline runId (before ++ .resolve :: after)) :
    Covers ((timeline runId).run before) .resolve := by
  intro rows hrows
  have hinv := pageInv_of_run runId before
  have hcache := hinv.merged (by simp [hrows])
  have hlist : ((timeline runId).run (before ++ [.resolve])).events = rows := by
    rw [Machine.run_concat]
    show (pageStep runId _ .resolve).events = rows
    simp only [pageStep, hrows]
    rfl
  have hsubset := h.stays before (before ++ [.resolve]) (List.prefix_append _ _) ⟨after, by simp⟩
  rw [hlist, hcache] at hsubset
  have hnodup : ((timeline runId).run before).stream.received.Nodup := by
    refine (hinv.numbered.of_prefix hinv.received_prefix).increasing.imp ?_
    intro a b hlt hab
    rw [hab] at hlt
    exact Nat.lt_irrefl _ hlt
  rw [hinv.lastSequence]
  exact (List.subperm_of_subset hnodup hsubset).length_le

/-- **The timeline loses nothing exactly when the fetched list, as it
arrives, has every event the stream has delivered before it.** -/
theorem keepsTimeline_iff (runId : RunId) (es : List PageEvent) :
    KeepsTimeline runId es ↔ (timeline runId).Admits Covers (timeline runId).init es := by
  constructor
  · intro h
    refine (timeline runId).admits_iff.mpr ?_
    rintro before e after rfl
    cases e with
    | resolve => exact h.covers
    | _ => trivial
  · intro h
    have hpart : ∀ {fs : List PageEvent}, fs <+: es →
        (timeline runId).Admits Covers (timeline runId).init fs := by
      rintro fs ⟨rest, rfl⟩
      exact ((timeline runId).admits_append.mp h).1
    refine ⟨?_, ?_, ?_⟩
    · intro fs hfs
      have hexact := exact_of_admits (hpart hfs)
      exact ((pageInv_of_run runId fs).numbered.of_prefix hexact.events).increasing
    · rintro fs gs ⟨rest, rfl⟩ hgs
      exact (events_of_admits (hpart hgs)).subset
    · intro fs hfs rows hrows
      have hexact := exact_of_admits (hpart hfs)
      have hnumbered := (pageInv_of_run runId fs).numbered.of_prefix hexact.events
      have hlength := hexact.length
      rw [Page.fetchedLength, hrows] at hlength
      rw [hnumbered, hlength]

/-! ### A list that is late -/

/-- Steps of the stream leave the fetch alone. -/
theorem runFrom_stream (p : Page) (es : List StreamEvent) :
    ((timeline runId).runFrom p (es.map .stream)).stream =
        (streamMachine runId firstRequest).runFrom p.stream es ∧
      ((timeline runId).runFrom p (es.map .stream)).fetch = p.fetch := by
  induction es generalizing p with
  | nil => exact ⟨rfl, rfl⟩
  | cons e es ih =>
    have hone : (pageStep runId p (.stream e)).stream = streamStep runId firstRequest p.stream e ∧
        (pageStep runId p (.stream e)).fetch = p.fetch := by
      simp only [pageStep]
      split <;> exact ⟨rfl, rfl⟩
    obtain ⟨hstream, hfetch⟩ := ih (pageStep runId p (.stream e))
    refine ⟨hstream.trans ?_, hfetch.trans hone.2⟩
    rw [hone.1]
    rfl

/-- The list is read, the worker claims its attempt, and the stream brings
what that has committed before the list arrives. -/
def lateList : List PageEvent := [
    .stream (.plane (.confirm (envAt 0) (smallConfirm "key") 0)),
    .issue,
    .answer,
    .stream (.plane (claimAt 1000 0 1 1))]
  ++ (catchUp 0 1).map .stream

theorem late_list_loses : ¬ KeepsTimeline 0 (lateList ++ [.resolve]) := by
  intro h
  let p := (timeline 0).run (lateList.take 4)
  have hp : PageInv 0 p := pageInv_of_run 0 _
  have hrun : (timeline 0).run lateList = (timeline 0).runFrom p ((catchUp 0 1).map .stream) :=
    Machine.run_append _ _ _
  obtain ⟨hstream, hfetch⟩ := @runFrom_stream 0 p (catchUp 0 1)
  have hread : p.fetch = .answered (listEvents []) := rfl
  have hone : (p.stream.plane.committed 0).length = 1 := by decide +kernel
  have hfirst : p.stream.connections.length = 0 := by decide +kernel
  -- The event of the claim has arrived.
  have hreceived := received_of_catchUp hp.stream (n := 1) (Nat.le_of_eq hone)
  have hdelivered : ((timeline 0).run lateList).lastSequence = 1 := by
    rw [(pageInv_of_run 0 lateList).lastSequence, hrun, hstream]
    rw [hfirst] at hreceived
    rw [hreceived]
    decide +kernel
  have hcovers := h.covers (listEvents []) (by rw [hrun, hfetch, hread])
  rw [hdelivered, listEvents_eq (show Numbered [] from rfl)] at hcovers
  exact absurd hcovers (by decide)

end Web

end AgentReliability
