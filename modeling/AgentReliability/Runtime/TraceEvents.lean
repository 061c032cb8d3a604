import AgentReliability.Runtime.Executor
import AgentReliability.Runtime.Graph
import AgentReliability.Runtime.PatchStats
import AgentReliability.Shared.TraceEvent
/-!
# The trace events of an attempt

An event is emitted at many places of the runtime, each with a payload of its
own making, and numbered by the emitter of the attempt. Whatever the places
and their order, the schema of the control plane accepts every event and
reads it as it was emitted, under a key that no other event of any attempt
has: none is dropped, and none is taken for a duplicate.
-/

namespace AgentReliability

namespace Runtime

open ControlPlane (FailureCode VerifierStep)
open JsonSchema (bind_read check_eq_some read_member)
open PatchStats (FileChange parsePatchStats readLine)
open PythonText (contains splitlines startswith)
open SelfAgent (BudgetKind)
open Shared (CommandExecPayload Count Dict TraceEvent TracePayload traceEventSchema)

/-! ## `events.py` -/

/-- `datetime.now(timezone.utc)`, to the millisecond. -/
structure Instant where
  year : ℕ
  month : ℕ
  day : ℕ
  hour : ℕ
  minute : ℕ
  second : ℕ
  millisecond : ℕ

/-- A number in so many digits at least. -/
def padded (width n : ℕ) : String := String.ofList ((Nat.toDigits 10 n).leftpad width '0')

/-- `isoformat(timespec="milliseconds")`, with `Z` for the offset. -/
def Instant.isoformat (t : Instant) : String :=
  padded 4 t.year ++ "-" ++ padded 2 t.month ++ "-" ++ padded 2 t.day ++ "T" ++
    padded 2 t.hour ++ ":" ++ padded 2 t.minute ++ ":" ++ padded 2 t.second ++ "." ++
    padded 3 t.millisecond ++ "Z"

def traceEventIdempotencyKey (runId : String) (attemptNo attemptSequence : ℕ) : String :=
  runId ++ ":" ++ toString attemptNo ++ ":" ++ toString attemptSequence

structure EventEmitter where
  runId : String
  attemptId : String
  attemptNo : ℕ
  sequence : ℕ := 0

/-- `EventEmitter.emit`: the event that is added to the stream. -/
def EventEmitter.emit (e : EventEmitter) (now : Instant) (payload : TracePayload) :
    EventEmitter × TraceEvent :=
  let sequence := e.sequence + 1
  ({ e with sequence },
    { runId := e.runId
      attemptId := e.attemptId
      attemptNo := e.attemptNo
      attemptSequence := sequence
      occurredAt := now.isoformat
      idempotencyKey := traceEventIdempotencyKey e.runId e.attemptNo sequence
      payload })

/-! ## The places an event is emitted at -/

/-- `ExecResult`. -/
structure SandboxResult where
  exitCode : ℤ
  stdout : String
  stderr : String

/-- `ExecResult.combined`. -/
def SandboxResult.combined (r : SandboxResult) : String :=
  if r.stderr = "" then r.stdout
  else if r.stdout = "" then "[stderr]\n" ++ r.stderr
  else r.stdout ++ "\n[stderr]\n" ++ r.stderr

/-- The payload of a command: `stderrTail` is left out where there is none. -/
def SandboxResult.payload (r : SandboxResult) (command : String) (durationMs : ℤ) :
    CommandExecPayload where
  command
  exitCode := r.exitCode
  stdoutTail := lastChars 2000 r.stdout
  stderrTail := if r.stderr = "" then none else some (lastChars 2000 r.stderr)
  durationMs

/-- The classes `classify_failure` asks for. A `SandboxCrashed` is a
`SandboxError` too, and is asked for first. -/
inductive ExceptionClass where
  | budgetExceeded (kind : BudgetKind)
  | agentStuck
  | modelRateLimitError
  | sandboxCrashed
  | sandboxError
  | commandRejected
  | other (module : String)

structure RaisedException where
  kind : ExceptionClass
  text : String

/-- `classify_failure`. -/
def classifyFailure (lower : String → String) (exc : RaisedException) : FailureCode :=
  let rateLimited := contains "429" (lower exc.text) || contains "rate limit" (lower exc.text)
  match exc.kind with
  | .budgetExceeded .tokens => .budgetTokensExceeded
  | .budgetExceeded .seconds => .budgetTimeExceeded
  | .budgetExceeded .turns => .budgetTurnsExceeded
  | .agentStuck => .agentStuck
  | .modelRateLimitError => .modelRateLimit
  | .sandboxCrashed => .sandboxCrashed
  | .sandboxError => .sandboxStartFailed
  | .commandRejected => .toolExecError
  | .other module =>
    if startswith "docker" module then .sandboxCrashed
    else if startswith "openai" module || startswith "langchain" module then
      if rateLimited then .modelRateLimit else .modelApiError
    else if rateLimited then .modelRateLimit
    else .toolExecError

/-- The events of `run_fake_executor`. -/
def fakeSteps (digest : String → String) (runId : String) : List TracePayload := [
  .modelCall ⟨"fake-model", 100, 50, 30, 1⟩,
  .toolCall ⟨"tc-" ++ runId ++ "-1", "read_file", [("path", .str "src/app.ts")], digest "read", 5,
    false, none⟩,
  .modelCall ⟨"fake-model", 200, 80, 25, 2⟩,
  .toolCall ⟨"tc-" ++ runId ++ "-2", "apply_patch", [("path", .str "src/app.ts")],
    digest "patch", 8, false, none⟩,
  .fileChange ⟨"src/app.ts", .modify, ⟨3, 1⟩⟩,
  .commandExec ⟨"pnpm test", 0, "3 passed", none, 120⟩,
  .checkpointSaved ⟨"fake-ckpt-" ++ runId, 430, 2⟩,
  .modelCall ⟨"fake-model", 300, 60, 20, 3⟩,
  .budgetUpdate ⟨790, 3, 3⟩,
  .commandExec ⟨"pnpm vitest run", 0, "all passed", none, 200⟩]

/-- One emission, by its place. The numbers of a model call are what the
provider reports, and those of seconds and milliseconds are read off clocks. -/
inductive Emission where
  /-- `Condenser.__call__`. -/
  | condenserCall (model : String) (promptTokens completionTokens latencyMs turn : ℤ)
  /-- `SelfAgent._agent_node` and `InstrumentedMiniModel.query`. -/
  | agentCall (model : String) (promptTokens completionTokens latencyMs turn : ℤ)
  | agentBudget (usedTokens elapsed turn : ℤ)
  /-- `SandboxEnvironment.execute`. -/
  | miniTool (toolCallId : Option String) (command : String) (result : SandboxResult)
      (durationMs : ℤ)
  | miniExec (command : String) (result : SandboxResult) (durationMs : ℤ)
  /-- `Toolset._record`: found, raised or returned. -/
  | toolCached (callId tool : String) (args : Dict) (resultDigest : String)
  | toolFailed (callId tool : String) (args : Dict) (text : String) (durationMs : ℤ)
  | toolDone (callId tool : String) (args : Dict) (result : String) (durationMs : ℤ)
  /-- `Toolset.apply_patch`, for each of the changes. -/
  | fileChange (patch : String) (change : FileChange)
  /-- `Toolset.run_command`. -/
  | runCommand (command : String) (result : SandboxResult) (durationMs : ℤ)
  /-- `on_checkpoint`. -/
  | checkpoint (checkpointId : String) (usedTokens usedSeconds : ℤ)
  /-- `VerifierPipeline._record`. -/
  | verification (step : VerifierStep) (passed : Bool) (failureCode : Option FailureCode)
      (detail : Dict)
  /-- `Worker.handle_entry`. -/
  | failure (exc : RaisedException)
  /-- `run_fake_executor`. -/
  | fake (payload : TracePayload)

section

-- `_digest` and `str.lower`.
variable (digest lower : String → String)

namespace Emission

/-- What an emitter is given. -/
def payload (e : EventEmitter) : Emission → TracePayload
  | condenserCall model promptTokens completionTokens latencyMs turn =>
    .modelCall { model := model ++ "(condenser)", promptTokens, completionTokens, latencyMs, turn }
  | agentCall model promptTokens completionTokens latencyMs turn =>
    .modelCall { model, promptTokens, completionTokens, latencyMs, turn }
  | agentBudget usedTokens elapsed turn =>
    .budgetUpdate { usedTokens, usedSeconds := elapsed, usedTurns := turn }
  | miniTool toolCallId command result durationMs =>
    .toolCall {
      toolCallId := (toolCallId.filter (· ≠ "")).getD ("mini-" ++ toString (e.sequence + 1))
      tool := "bash"
      args := [("command", .str (firstChars 1000 command))]
      resultDigest := digest result.combined
      durationMs, cached := false }
  | miniExec command result durationMs =>
    .commandExec (result.payload (firstChars 1000 command) durationMs)
  | toolCached callId tool args resultDigest =>
    .toolCall { toolCallId := callId, tool, args, resultDigest, durationMs := 0, cached := true }
  | toolFailed callId tool args text durationMs =>
    .toolCall {
      toolCallId := callId, tool, args, resultDigest := digest text, durationMs, cached := false
      error := some (firstChars 500 text) }
  | toolDone callId tool args result durationMs =>
    .toolCall {
      toolCallId := callId, tool, args, resultDigest := digest result, durationMs
      cached := false }
  | fileChange _ change =>
    .fileChange {
      path := change.path, changeType := change.changeType
      diffStat := { additions := change.additions, deletions := change.deletions } }
  | runCommand command result durationMs => .commandExec (result.payload command durationMs)
  | checkpoint checkpointId usedTokens usedSeconds =>
    .checkpointSaved { checkpointId, usedTokens, usedSeconds }
  | verification step passed failureCode detail =>
    .verificationResult {
      step, passed, detail, failureCode := if passed then none else failureCode }
  | failure exc =>
    .failureDetected {
      failureCode := classifyFailure lower exc, message := firstChars 2000 exc.text }
  | fake payload => payload

/-- The numbers are counts, as far as they come from elsewhere. -/
def Sound (runId : String) : Emission → Prop
  | condenserCall _ promptTokens completionTokens latencyMs turn
  | agentCall _ promptTokens completionTokens latencyMs turn =>
    Count promptTokens ∧ Count completionTokens ∧ Count latencyMs ∧ Count turn
  | agentBudget usedTokens elapsed turn => Count usedTokens ∧ Count elapsed ∧ Count turn
  | miniTool _ _ _ durationMs => Count durationMs
  | miniExec _ result durationMs
  | runCommand _ result durationMs =>
    -(2 ^ 53) < result.exitCode ∧ result.exitCode < 2 ^ 53 ∧ Count durationMs
  | toolFailed _ _ _ _ durationMs
  | toolDone _ _ _ _ durationMs => Count durationMs
  | fileChange patch change =>
    change ∈ parsePatchStats patch ∧ (splitlines patch).length < 2 ^ 53
  | checkpoint _ usedTokens usedSeconds => Count usedTokens ∧ Count usedSeconds
  | fake payload => payload ∈ fakeSteps digest runId
  | toolCached .. | verification .. | failure _ => True

end Emission

/-- An attempt, with what it emits and when. -/
structure AttemptLog where
  runId : String
  attemptId : String
  attemptNo : ℕ
  emissions : List (Instant × Emission)

/-- The events of an emitter, one emission after the other. -/
def EventEmitter.events (e : EventEmitter) : List (Instant × Emission) → List TraceEvent
  | [] => []
  | (now, emission) :: emissions =>
    let (e', event) := e.emit now (emission.payload digest lower e)
    event :: EventEmitter.events e' emissions

namespace AttemptLog

/-- The emitter the worker makes for the attempt. -/
def emitter (a : AttemptLog) : EventEmitter :=
  { runId := a.runId, attemptId := a.attemptId, attemptNo := a.attemptNo }

def events (a : AttemptLog) : List TraceEvent := a.emitter.events digest lower a.emissions

/-- The attempt was claimed for a command, its clock shows times that are dates
and times to the schema, and its numbers are counts. -/
structure Sound (isDatetime : String → Bool) (a : AttemptLog) : Prop where
  runId : a.runId ≠ ""
  attemptId : a.attemptId ≠ ""
  attemptNo : 0 < a.attemptNo ∧ a.attemptNo < 2 ^ 53
  length : a.emissions.length < 2 ^ 53
  emissions : ∀ x ∈ a.emissions, isDatetime x.1.isoformat = true ∧ x.2.Sound digest a.runId

end AttemptLog

end

/-! ## Every payload is in range -/

/-- A line raises the counts of a file by one at most. -/
theorem read_counts (change : FileChange) (line : String) :
    (change.read line).additions + (change.read line).deletions ≤
      change.additions + change.deletions + 1 := by
  unfold FileChange.read
  split_ifs <;> simp <;> omega

/-- **The counts of a patch are no more than its lines.** -/
theorem counts_foldl_le (lines : List String) {s : List FileChange × Option FileChange} {k : ℕ}
    (hs : ∀ change ∈ s.1 ++ s.2.toList, change.additions + change.deletions ≤ k) :
    ∀ change ∈ (lines.foldl readLine s).1 ++ (lines.foldl readLine s).2.toList,
      change.additions + change.deletions ≤ k + lines.length := by
  induction lines generalizing s k with
  | nil => exact hs
  | cons line lines ih =>
    obtain ⟨changes, current⟩ := s
    have hstep : ∀ change ∈ (readLine (changes, current) line).1 ++
        (readLine (changes, current) line).2.toList,
        change.additions + change.deletions ≤ k + 1 := by
      intro change hchange
      by_cases hdiff : startswith "diff --git" line = true
      · -- A new file starts with no counts.
        simp only [readLine, if_pos hdiff, Option.toList_some, List.mem_append,
          List.mem_singleton] at hchange
        rcases hchange with hold | rfl
        · have := hs change (List.mem_append.mpr hold)
          omega
        · simp
      · simp only [readLine, if_neg hdiff, List.mem_append, Option.mem_toList,
          Option.map_eq_some_iff] at hchange
        rcases hchange with hold | ⟨before, hbefore, rfl⟩
        · have := hs change (List.mem_append_left _ hold)
          omega
        · have := hs before (List.mem_append_right _ (Option.mem_toList.mpr hbefore))
          have := read_counts before line
          omega
    intro change hchange
    have := ih hstep change hchange
    rw [List.length_cons]
    omega

theorem counts_le {patch : String} {change : FileChange} (h : change ∈ parsePatchStats patch) :
    change.additions + change.deletions ≤ (splitlines patch).length := by
  have hmem := List.mem_of_mem_filter h
  have := counts_foldl_le (splitlines patch) (s := ([], none)) (k := 0) (by simp) change hmem
  omega

theorem count_natCast {n : ℕ} (h : n < 2 ^ 53) : Count (n : ℤ) := by
  refine ⟨Int.natCast_nonneg n, ?_⟩
  exact_mod_cast h

section

variable {digest lower : String → String}

/-- The scripted payloads are in range. -/
theorem fakeSteps_inRange {runId : String} {payload : TracePayload}
    (h : payload ∈ fakeSteps digest runId) : payload.InRange := by
  simp only [fakeSteps, List.mem_cons, List.not_mem_nil, or_false] at h
  rcases h with rfl | rfl | rfl | rfl | rfl | rfl | rfl | rfl | rfl | rfl <;>
    simp [TracePayload.InRange, Count]

/-- **What is emitted is in range**, at each of the places. -/
theorem Emission.inRange {e : EventEmitter} {emission : Emission}
    (h : emission.Sound digest e.runId) : (emission.payload digest lower e).InRange := by
  cases emission with
  | condenserCall => exact h
  | agentCall => exact h
  | agentBudget => exact h
  | miniTool => exact h
  | miniExec => exact h
  | toolCached => exact ⟨le_refl (0 : ℤ), by simp⟩
  | toolFailed => exact h
  | toolDone => exact h
  | fileChange patch change =>
    obtain ⟨hchange, hlength⟩ := h
    have hle := counts_le hchange
    exact ⟨count_natCast (by omega), count_natCast (by omega)⟩
  | runCommand => exact h
  | checkpoint => exact h
  | verification => trivial
  | failure => trivial
  | fake => exact fakeSteps_inRange h

end

/-! ## The keys -/

/-- A text without colons ends where the last colon is. -/
theorem append_colon_inj {p q ds es : List Char} (hds : ':' ∉ ds) (hes : ':' ∉ es)
    (h : p ++ ':' :: ds = q ++ ':' :: es) : p = q ∧ ds = es := by
  rcases List.append_eq_append_iff.mp h with ⟨more, rfl, hmore⟩ | ⟨more, rfl, hmore⟩
  · cases more with
    | nil => exact ⟨by simp, (List.cons.inj hmore).2⟩
    | cons c more =>
      rw [(List.cons.inj hmore).2] at hds
      exact absurd (by simp) hds
  · cases more with
    | nil => exact ⟨by simp, (List.cons.inj hmore).2.symm⟩
    | cons c more =>
      rw [(List.cons.inj hmore).2] at hes
      exact absurd (by simp) hes

theorem colon_notMem_toDigits (n : ℕ) : ':' ∉ Nat.toDigits 10 n := by
  intro h
  exact absurd (Nat.isDigit_of_mem_toDigits (by decide) (by decide) h) (by decide)

theorem toList_traceEventIdempotencyKey (runId : String) (attemptNo attemptSequence : ℕ) :
    (traceEventIdempotencyKey runId attemptNo attemptSequence).toList =
      (runId.toList ++ ':' :: Nat.toDigits 10 attemptNo) ++
        ':' :: Nat.toDigits 10 attemptSequence := by
  simp [traceEventIdempotencyKey, Nat.toList_repr]

theorem toDigits_ten_inj {m n : ℕ} (h : Nat.toDigits 10 m = Nat.toDigits 10 n) : m = n := by
  rw [← @Nat.ofDigitChars_ten_toDigits m, h, Nat.ofDigitChars_ten_toDigits]

/-- **A key tells the run, the attempt and the number of an event**, whatever
colons the id of the run has. -/
theorem traceEventIdempotencyKey_inj {runId runId' : String} {attemptNo attemptNo' m n : ℕ}
    (h : traceEventIdempotencyKey runId attemptNo m = traceEventIdempotencyKey runId' attemptNo' n) :
    runId = runId' ∧ attemptNo = attemptNo' ∧ m = n := by
  have hlist := congrArg String.toList h
  rw [toList_traceEventIdempotencyKey, toList_traceEventIdempotencyKey] at hlist
  obtain ⟨hfront, hnumber⟩ :=
    append_colon_inj (colon_notMem_toDigits m) (colon_notMem_toDigits n) hlist
  obtain ⟨hrun, hattempt⟩ :=
    append_colon_inj (colon_notMem_toDigits attemptNo) (colon_notMem_toDigits attemptNo') hfront
  exact ⟨String.toList_inj.mp hrun, toDigits_ten_inj hattempt, toDigits_ten_inj hnumber⟩

/-! ## The stream of an attempt -/

section

variable {digest lower : String → String}

/-- **The events of an emitter are numbered on**, and are its own. -/
theorem events_numbered (e : EventEmitter) (emissions : List (Instant × Emission)) {k : ℕ}
    {event : TraceEvent} (h : (e.events digest lower emissions)[k]? = some event) :
    ∃ now emission, emissions[k]? = some (now, emission) ∧
      event = (({ e with sequence := e.sequence + k } : EventEmitter).emit now
        (emission.payload digest lower { e with sequence := e.sequence + k })).2 := by
  induction emissions generalizing e k with
  | nil => exact absurd h (by simp [EventEmitter.events])
  | cons x emissions ih =>
    obtain ⟨now, emission⟩ := x
    cases k with
    | zero => exact ⟨now, emission, rfl, (Option.some.inj h).symm⟩
    | succ k =>
      obtain ⟨now', emission', hget, rfl⟩ := ih _ h
      refine ⟨now', emission', hget, ?_⟩
      have hsequence : e.sequence + 1 + k = e.sequence + (k + 1) := by omega
      simp only [EventEmitter.emit, hsequence]

theorem length_events (e : EventEmitter) (emissions : List (Instant × Emission)) :
    (e.events digest lower emissions).length = emissions.length := by
  induction emissions generalizing e with
  | nil => rfl
  | cons x emissions ih => exact congrArg (· + 1) (ih _)

theorem TraceEvent.nodup (event : TraceEvent) : (event.members.map Prod.fst).Nodup := by
  simp [Shared.TraceEvent.members]

/-- **The schema reads the event that was emitted.** -/
theorem emit_read {isDatetime : String → Bool} {e : EventEmitter} {now : Instant}
    {payload : TracePayload} (hrun : e.runId ≠ "") (hattempt : e.attemptId ≠ "")
    (hpos : 0 < e.attemptNo) (hno : e.attemptNo < 2 ^ 53) (hsequence : e.sequence + 1 < 2 ^ 53)
    (hnow : isDatetime now.isoformat = true) (hpayload : payload.InRange) :
    traceEventSchema isDatetime (e.emit now payload).2.toJson = some (e.emit now payload).2 := by
  have hnodup := TraceEvent.nodup (e.emit now payload).2
  have hkey : traceEventIdempotencyKey e.runId e.attemptNo (e.sequence + 1) ≠ "" := by
    intro h
    have hlist := congrArg String.toList h
    rw [toList_traceEventIdempotencyKey] at hlist
    exact absurd hlist (by simp)
  have hcount : ∀ n : ℕ, 0 < n → n < 2 ^ 53 →
      Shared.positiveInt (Shared.number (n : ℤ)) = some (n : ℤ) := by
    intro n hpos hlt
    exact Shared.positiveInt_number (by omega) (by exact_mod_cast hlt)
  refine bind_read (Json.isObject_object _) ?_
  refine bind_read (read_member hnodup rfl (Shared.eventType_read _)) ?_
  refine bind_read (read_member hnodup rfl (Shared.nonempty_str hrun)) ?_
  refine bind_read (read_member hnodup rfl (Shared.nonempty_str hattempt)) ?_
  refine bind_read (read_member hnodup rfl (hcount _ hpos hno)) ?_
  refine bind_read (read_member hnodup rfl (hcount _ (by omega) hsequence)) ?_
  refine bind_read (read_member hnodup rfl (check_eq_some.mpr ⟨rfl, hnow⟩)) ?_
  refine bind_read (read_member hnodup rfl (Shared.nonempty_str hkey)) ?_
  refine bind_read (read_member hnodup rfl (TracePayload.read hpayload)) ?_
  rfl

/-- The keys of an emitter, in order. -/
theorem keys_events (e : EventEmitter) (emissions : List (Instant × Emission)) :
    (e.events digest lower emissions).map (·.idempotencyKey) =
      (List.range' (e.sequence + 1) emissions.length).map
        (traceEventIdempotencyKey e.runId e.attemptNo) := by
  induction emissions generalizing e with
  | nil => rfl
  | cons x emissions ih =>
    obtain ⟨now, emission⟩ := x
    rw [List.length_cons, List.range'_succ, List.map_cons]
    exact congrArg (List.cons _) (ih _)

/-- **No two events have one key**, within an attempt or across attempts. -/
theorem nodup_keys {attempts : List AttemptLog}
    (hdistinct : (attempts.map fun a => (a.runId, a.attemptNo)).Nodup) :
    ((attempts.flatMap (AttemptLog.events digest lower)).map (·.idempotencyKey)).Nodup := by
  have hkeys : ∀ a : AttemptLog, (a.events digest lower).map (·.idempotencyKey) =
      (List.range' 1 a.emissions.length).map (traceEventIdempotencyKey a.runId a.attemptNo) :=
    fun a => keys_events a.emitter a.emissions
  rw [List.map_flatMap, List.nodup_flatMap]
  simp only [hkeys]
  constructor
  · intro a _
    exact (List.nodup_range' 1).map fun m n h => (traceEventIdempotencyKey_inj h).2.2
  · refine (List.pairwise_map.mp hdistinct).imp ?_
    intro a b hne key hka hkb
    obtain ⟨m, -, rfl⟩ := List.mem_map.mp hka
    obtain ⟨n, -, hkey⟩ := List.mem_map.mp hkb
    obtain ⟨hrun, hattempt, -⟩ := traceEventIdempotencyKey_inj hkey
    exact hne (Prod.ext hrun.symm hattempt.symm)

end

/-- A moment of a run. -/
def noon : Instant := ⟨2026, 10, 6, 12, 0, 0, 7⟩

/-- A run whose first attempt hits the rate limit in its second call, and whose
second changes a file. -/
def limitedAttempts : List AttemptLog := [
  { runId := "run:1", attemptId := "first", attemptNo := 1
    emissions := [
      (noon, .agentCall "model" 900 40 1200 1),
      (noon, .failure ⟨.other "openai", "Error code: 429"⟩)] },
  { runId := "run:1", attemptId := "second", attemptNo := 2
    emissions := [
      (noon, .toolDone "call" "apply_patch" [("patchDigest", .str "d")] "[ok]" 30),
      (noon, .verification .v1 true none [("patchBytes", .num 12)])] }]

end Runtime

end AgentReliability
