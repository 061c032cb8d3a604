import AgentReliability.Common.Program
import AgentReliability.ControlPlane.Dispatch
/-!
# The worker and its acknowledgements

`Worker.handle_entry` takes a command off the stream, claims its attempt
and acknowledges the entry. A command of a fixture is first entered under
`SET cmd:{commandId} NX`, and a command whose key is taken is acknowledged
on the spot. The key is taken before the claim, so it says that a worker
meant to claim the attempt, and not that the control plane heard of it.

Any number of entries are handled beside each other and beside the control
plane. A worker that dies is a handling that is never gone on with.
-/

namespace AgentReliability

namespace Runtime

open ControlPlane

/-! ## The function -/

inductive WorkerException where
  /-- `httpx.HTTPStatusError`. -/
  | httpStatus (code : ℕ)
  /-- A timeout, a transport error, an error of Redis, or any other. -/
  | other (name : String)
  deriving DecidableEq, Repr

/-- The response to a claim. -/
structure ClaimResponse where
  attemptId : AttemptId
  duplicate : Bool

inductive WorkerEffect where
  /-- `SET cmd:{commandId} NX EX 3600`. -/
  | setNx
  | claim
  /-- The heartbeat and the emitter of an attempt are started. -/
  | begin (attemptId : AttemptId)
  /-- The attempt is executed and its end reported, with the handlers
  around it. -/
  | work (attemptId : AttemptId)
  /-- `XACK`. -/
  | ack

@[reducible] def WorkerEffect.Answer : WorkerEffect → Type
  | setNx => Bool
  | claim => ClaimResponse
  | _ => Unit

abbrev WorkerProgram := Program WorkerEffect WorkerEffect.Answer WorkerException

/-- The statuses of a claim that the worker takes for a refusal. -/
def refusals : List ℕ := [404, 409]

/-- `Worker.handle_entry`, lines 204–265: from the claim on. -/
def claimEntry (command : RunCommand) : WorkerProgram Unit := do
  if command.type = .cancelRun then Program.call WorkerEffect.ack
  else
    let claim ← Program.tryExcept
      (do
        let claim ← Program.call WorkerEffect.claim
        pure (some claim))
      (fun
        | .httpStatus code =>
          if code ∈ refusals then do
            Program.call WorkerEffect.ack
            pure none
          else .raise (.httpStatus code)
        | .other name => .raise (.other name))
    match claim with
    | none => pure ()
    | some claim =>
      if claim.duplicate then Program.call WorkerEffect.ack
      else
        Program.call (WorkerEffect.begin claim.attemptId)
        Program.tryFinally (Program.call (WorkerEffect.work claim.attemptId))
          (Program.call WorkerEffect.ack)

/-- `Worker.handle_entry`, on a command that was parsed. -/
def handleEntry (command : RunCommand) : WorkerProgram Unit := do
  if command.snapshot.isNone then
    let fresh ← Program.call WorkerEffect.setNx
    if fresh then claimEntry command else Program.call WorkerEffect.ack
  else claimEntry command

/-! ### Its continuations -/

def acknowledge : WorkerProgram Unit := Program.call WorkerEffect.ack

def runAttempt (attemptId : AttemptId) : WorkerProgram Unit := do
  Program.call (WorkerEffect.begin attemptId)
  Program.tryFinally (Program.call (WorkerEffect.work attemptId)) (Program.call WorkerEffect.ack)

/-- After the answer to the claim. -/
def afterClaim : Except WorkerException ClaimResponse → WorkerProgram Unit
  | .ok claim => if claim.duplicate then acknowledge else runAttempt claim.attemptId
  | .error (.httpStatus code) =>
    if code ∈ refusals then acknowledge else .raise (.httpStatus code)
  | .error (.other name) => .raise (.other name)

/-- After the answer to the `SET NX`. -/
def afterSetNx (command : RunCommand) : Except WorkerException Bool → WorkerProgram Unit
  | .ok true => claimEntry command
  | .ok false => acknowledge
  | .error e => .raise e

/-- **The function, effect by effect.** -/
theorem handleEntry_eq (command : RunCommand) :
    handleEntry command = if command.snapshot.isNone then
      .perform .setNx (afterSetNx command) else claimEntry command := by
  unfold handleEntry
  split
  · refine congrArg (Program.perform _) (funext fun answer => ?_)
    match answer with
    | .ok true => rfl
    | .ok false => rfl
    | .error e => rfl
  · rfl

theorem claimEntry_eq {command : RunCommand} (h : command.type ≠ .cancelRun) :
    claimEntry command = .perform .claim afterClaim := by
  unfold claimEntry
  rw [if_neg h]
  refine congrArg (Program.perform _) (funext fun answer => ?_)
  match answer with
  | .ok ⟨_, true⟩ => rfl
  | .ok ⟨_, false⟩ => rfl
  | .error (.httpStatus code) =>
    change (Program.tryExcept (Program.raise _) _).bind _ = _
    unfold Program.tryExcept afterClaim
    by_cases hcode : code ∈ refusals
    · simp only [if_pos hcode]
      refine congrArg (Program.perform _) (funext fun answer => ?_)
      cases answer <;> rfl
    · simp only [if_neg hcode]
      rfl
  | .error (.other name) => rfl

/-! ## The handlings, beside the control plane -/

/-- One execution of `handle_entry`, for the entry at a position of the
stream. -/
structure Handling where
  entry : ℕ
  program : WorkerProgram Unit

structure WorkerState where
  plane : State := {}
  /-- The keys Redis holds. -/
  keys : List CommandId := []
  /-- The claims the control plane answered: granted, found, or refused
  with one of the `refusals`. By run and attempt number. -/
  served : List (RunId × ℕ) := []
  /-- Those it refused. -/
  refused : List (RunId × ℕ) := []
  handlings : List Handling := []
  /-- The entries that were acknowledged. -/
  acked : List ℕ := []

/-- Where and by whom a claim is served. -/
structure ClaimService where
  env : Env
  workerId : String
  runAt : ℕ
  attemptAt : ℕ

def ClaimService.input (service : ClaimService) (command : RunCommand) : ClaimInput where
  runId := command.runId
  attemptNo := command.attemptNo
  workerId := service.workerId

def ClaimService.request (service : ClaimService) (command : RunCommand) : Request :=
  .claim (service.input command) service.runAt service.attemptAt

/-- The position a query finds the attempt at. -/
def attemptIndex (r : RunRows) (attemptNo : ℕ) : ℕ :=
  (r.attempts.findIdx? fun a => a.no = attemptNo).getD 0

/-- What the control plane answers to a claim. -/
def claimAnswer (s : State) (service : ClaimService) (command : RunCommand) :
    Except ServiceError ClaimResponse :=
  match (service.request command).prepare s service.env with
  | .error e => .error e
  | .ok none => .ok {
      attemptId := ⟨command.runId, ((s.runAt service.attemptAt command.runId).map fun r =>
        attemptIndex r command.attemptNo).getD 0⟩
      duplicate := true }
  | .ok (some tx) =>
    match s.db.transact service.env tx.runId tx.body with
    | .error e => .error e
    | .ok db => .ok {
        attemptId := ⟨command.runId, ((db.runs[command.runId]?).map fun r =>
          attemptIndex r command.attemptNo).getD 0⟩
        duplicate := false }

/-- The claim a command asks for. -/
def claimOf (command : RunCommand) : RunId × ℕ := (command.runId, command.attemptNo)

/-- The claim an HTTP status refuses. -/
def refusalOf (command : RunCommand) (code : ℕ) : List (RunId × ℕ) :=
  if code ∈ refusals then [claimOf command] else []

inductive WorkerEvent where
  | plane (e : Event)
  /-- `XREADGROUP` or `XAUTOCLAIM` hands an entry to a worker. -/
  | deliver (entry : ℕ)
  /-- A key has run out. -/
  | expire (id : CommandId)
  /-- The effect a handling waits for is had, and answered, or the answer is
  lost. -/
  | perform (i : ℕ) (service : ClaimService) (lost : Option WorkerException)
  /-- The effect a handling waits for fails, and is not had. -/
  | fail (i : ℕ) (e : WorkerException)

/-- An answer, unless it is lost. -/
def answered {α : Type} (lost : Option WorkerException) (a : Except WorkerException α) :
    Except WorkerException α :=
  match lost with
  | some e => .error e
  | none => a

namespace WorkerState

variable (s : WorkerState)

/-- A handling goes on. -/
def resume (i entry : ℕ) (program : WorkerProgram Unit) : WorkerState :=
  { s with handlings := s.handlings.set i { entry, program } }

/-- The status the worker sees is the control plane's answer. -/
def noteStatus (command : RunCommand) : WorkerException → WorkerState
  | .httpStatus code =>
    { s with
      served := s.served ++ refusalOf command code
      refused := s.refused ++ refusalOf command code }
  | .other _ => s

/-- The control plane takes a claim. -/
def serve (service : ClaimService) (command : RunCommand) : WorkerState :=
  match claimAnswer s.plane service command with
  | .ok _ =>
    { s with
      plane := step s.plane (.request service.env (service.request command))
      served := s.served ++ [claimOf command] }
  | .error e => s.noteStatus command (.httpStatus e.httpStatus)

/-- The status of a claim whose answer is lost, where a status is what came
instead. -/
def noteLost (command : RunCommand) : Option WorkerException → WorkerState
  | some e => s.noteStatus command e
  | none => s

/-- The effect of a handling is had. -/
def perform (i : ℕ) (service : ClaimService) (lost : Option WorkerException) : WorkerState :=
  match s.handlings[i]? with
  | none => s
  | some h =>
    match h.program, s.plane.stream[h.entry]? with
    | .perform .setNx k, some command =>
      let fresh := command.commandId ∉ s.keys
      let keys := if fresh then s.keys ++ [command.commandId] else s.keys
      { s with keys }.resume i h.entry (k (answered lost (.ok fresh)))
    | .perform .claim k, some command =>
      let answer := (claimAnswer s.plane service command).mapError fun e => .httpStatus e.httpStatus
      ((s.serve service command).noteLost command lost).resume i h.entry (k (answered lost answer))
    | .perform (.begin _) k, some _ => s.resume i h.entry (k (answered lost (.ok ())))
    | .perform (.work _) k, some _ => s.resume i h.entry (k (answered lost (.ok ())))
    | .perform .ack k, some _ =>
      { s with acked := s.acked ++ [h.entry] }.resume i h.entry (k (answered lost (.ok ())))
    | _, _ => s

/-- The effect of a handling fails. -/
def fail (i : ℕ) (e : WorkerException) : WorkerState :=
  match s.handlings[i]? with
  | none => s
  | some h =>
    match h.program, s.plane.stream[h.entry]? with
    | .perform .claim k, some command => (s.noteStatus command e).resume i h.entry (k (.error e))
    | .perform _ k, some _ => s.resume i h.entry (k (.error e))
    | _, _ => s

/-- An entry is handed to a worker. -/
def deliver (entry : ℕ) : WorkerState :=
  match s.plane.stream[entry]? with
  | some command => { s with handlings := s.handlings ++ [{ entry, program := handleEntry command }] }
  | none => s

end WorkerState

def workerStep (s : WorkerState) : WorkerEvent → WorkerState
  | .plane e => { s with plane := step s.plane e }
  | .deliver entry => s.deliver entry
  | .expire id => { s with keys := s.keys.filter (· ≠ id) }
  | .perform i service lost => s.perform i service lost
  | .fail i e => s.fail i e

/-- The workers beside the control plane. -/
def workers : Machine WorkerState WorkerEvent where
  init := {}
  step := workerStep

/-! ## What the control plane answers -/

/-- The attempt exists, or its claim was refused. By run and number. -/
def Settled (s : WorkerState) (claim : RunId × ℕ) : Prop :=
  claim.2 ∈ s.plane.db.attemptNos claim.1 ∨ claim ∈ s.refused

/-- **A claim that succeeds leaves its attempt there**: it was found in some
version, and is there still, or it was granted. -/
theorem attempt_of_claimAnswer {s : State} (hs : Sound s) {service : ClaimService}
    {command : RunCommand} {response : ClaimResponse}
    (h : claimAnswer s service command = .ok response) :
    command.attemptNo ∈ (step s (.request service.env (service.request command))).db.attemptNos
      command.runId := by
  unfold claimAnswer at h
  split at h
  · exact absurd h (by simp)
  · rename_i hprep
    refine attemptNos_later (dbLater_step hs _) ?_
    simp only [ClaimService.request, Request.prepare, bind_eq_ok, orThrow_eq_ok] at hprep
    obtain ⟨seen, -, hprep⟩ := hprep
    split at hprep
    · rename_i hexisting
      obtain ⟨r, hr, hany⟩ := Option.any_eq_true _ _ |>.mp hexisting
      obtain ⟨v, hv, -, hrun⟩ := Sound.of_runAt hr
      change v.runs[command.runId]? = some r at hrun
      refine attemptNos_later (hs.later_db hv) ?_
      rw [Database.attemptNos_of_some hrun]
      obtain ⟨a, ha, hno⟩ := List.any_eq_true.mp hany
      exact List.mem_map.mpr ⟨a, ha, of_decide_eq_true hno⟩
    · simp only [bind_eq_ok, pure_eq_ok] at hprep
      obtain ⟨-, -, hprep⟩ := hprep
      exact absurd hprep (by simp)
  · rename_i tx hprep
    split at h
    · exact absurd h (by simp)
    · rename_i db htransact
      have hcommit : (Event.request service.env (service.request command)).commit? s = some db := by
        simp only [Event.commit?, Request.commit?, hprep, htransact]
        rfl
      obtain ⟨seen, r, r', hr, hclaim, hdb⟩ := claim_commit hcommit
      have hset : db.runs[command.runId]? = some r' := by
        rw [hdb]
        exact List.getElem?_set_self (List.getElem?_eq_some_iff.mp hr).1
      unfold step
      rw [hcommit]
      change command.attemptNo ∈ db.attemptNos command.runId
      rw [Database.attemptNos_of_some hset, attemptNos_of_claim hclaim]
      exact List.mem_append_right _ List.mem_cons_self

/-! ## The invariant -/

/-- What a later state keeps of an earlier one. -/
structure Beyond (s s' : WorkerState) : Prop where
  sound : Sound s'.plane
  attempts : ∀ {id no}, no ∈ s.plane.db.attemptNos id → no ∈ s'.plane.db.attemptNos id
  refused : s.refused ⊆ s'.refused
  stream : s.plane.stream <+: s'.plane.stream

theorem Beyond.settled {s s' : WorkerState} (h : Beyond s s') {claim : RunId × ℕ}
    (hs : Settled s claim) : Settled s' claim :=
  hs.imp h.attempts fun hr => h.refused hr

theorem Beyond.trans {a b c : WorkerState} (h₁ : Beyond a b) (h₂ : Beyond b c) : Beyond a c :=
  ⟨h₂.sound, fun h => h₂.attempts (h₁.attempts h), List.Subset.trans h₁.refused h₂.refused,
    h₁.stream.trans h₂.stream⟩

/-- Where a handling of a command can be: before its `SET NX`, before its
claim, at its end, or past the claim. -/
def EntryStage (s : WorkerState) (command : RunCommand) (program : WorkerProgram Unit) : Prop :=
  program = .perform .setNx (afterSetNx command) ∨ program = .perform .claim afterClaim ∨
    program.effect? = none ∨ Settled s (claimOf command)

/-- A statement about the command of an entry, for the commands that start
or resume a run. -/
def OnEntry (s : WorkerState) (entry : ℕ) (P : RunCommand → Prop) : Prop :=
  ∃ command, s.plane.stream[entry]? = some command ∧ (command.type ≠ .cancelRun → P command)

structure WorkerInv (s : WorkerState) : Prop where
  sound : Sound s.plane
  /-- A claim that was served left its attempt there, or was refused. -/
  served : ∀ claim ∈ s.served, Settled s claim
  staged : ∀ h ∈ s.handlings, OnEntry s h.entry fun command => EntryStage s command h.program
  acked : ∀ entry ∈ s.acked, OnEntry s entry fun command => Settled s (claimOf command)

theorem OnEntry.mono {s s' : WorkerState} (hb : Beyond s s') {entry : ℕ}
    {P Q : RunCommand → Prop} (hPQ : ∀ command, P command → Q command) (h : OnEntry s entry P) :
    OnEntry s' entry Q := by
  obtain ⟨command, hcommand, hP⟩ := h
  obtain ⟨rest, hrest⟩ := hb.stream
  refine ⟨command, ?_, fun htype => hPQ command (hP htype)⟩
  rw [← hrest, List.getElem?_append_left (List.getElem?_eq_some_iff.mp hcommand).1]
  exact hcommand

theorem EntryStage.mono {s s' : WorkerState} (hb : Beyond s s') {command : RunCommand}
    {program : WorkerProgram Unit} (h : EntryStage s command program) : EntryStage s' command program :=
  h.imp_right fun h => h.imp_right fun h => h.imp_right hb.settled

/-- What a step has to show of what it adds. -/
theorem WorkerInv.of_beyond {s s' : WorkerState} (h : WorkerInv s) (hb : Beyond s s')
    (hserved : ∀ claim ∈ s'.served, claim ∈ s.served ∨ Settled s' claim)
    (hstaged : ∀ x ∈ s'.handlings, x ∈ s.handlings ∨
      OnEntry s' x.entry fun command => EntryStage s' command x.program)
    (hacked : ∀ entry ∈ s'.acked, entry ∈ s.acked ∨
      OnEntry s' entry fun command => Settled s' (claimOf command)) : WorkerInv s' where
  sound := hb.sound
  served := fun claim hc => (hserved claim hc).elim (fun hc => hb.settled (h.served claim hc)) id
  staged := fun x hx => (hstaged x hx).elim
    (fun hx => (h.staged x hx).mono hb fun _ hstage => hstage.mono hb) id
  acked := fun entry he => (hacked entry he).elim
    (fun he => (h.acked entry he).mono hb fun _ hsettled => hb.settled hsettled) id

/-! ## Its steps -/

/-- A handling that waits for an effect, and has not passed its claim, waits
for the `SET NX` or for the claim. -/
theorem stage_handleEntry (s : WorkerState) {command : RunCommand}
    (htype : command.type ≠ .cancelRun) : EntryStage s command (handleEntry command) := by
  rw [handleEntry_eq]
  split
  · exact .inl rfl
  · exact .inr (.inl (claimEntry_eq htype))

/-- A handling goes on: the rest of the state is another's concern. -/
theorem staged_resume {s s' : WorkerState} {i entry : ℕ} {program : WorkerProgram Unit}
    (hsame : s'.handlings = s.handlings)
    (h : OnEntry (s'.resume i entry program) entry fun command =>
      EntryStage (s'.resume i entry program) command program) :
    ∀ x ∈ (s'.resume i entry program).handlings, x ∈ s.handlings ∨
      OnEntry (s'.resume i entry program) x.entry fun command =>
        EntryStage (s'.resume i entry program) command x.program := by
  intro x hx
  change x ∈ s'.handlings.set i { entry, program } at hx
  rcases List.mem_or_eq_of_mem_set hx with hold | rfl
  · exact .inl (hsame ▸ hold)
  · exact .inr h

theorem beyond_noteStatus {s : WorkerState} (hs : Sound s.plane) (command : RunCommand)
    (e : WorkerException) : Beyond s (s.noteStatus command e) := by
  cases e with
  | httpStatus code => exact ⟨hs, id, List.subset_append_left _ _, List.prefix_refl _⟩
  | other name => exact ⟨hs, id, List.Subset.refl _, List.prefix_refl _⟩

/-- What a status adds to the claims that were served is refused. -/
theorem served_noteStatus {s : WorkerState} {command : RunCommand} {e : WorkerException} :
    ∀ claim ∈ (s.noteStatus command e).served,
      claim ∈ s.served ∨ Settled (s.noteStatus command e) claim := by
  intro claim hc
  cases e with
  | httpStatus code =>
    rcases List.mem_append.mp hc with hold | hnew
    · exact .inl hold
    · exact .inr (.inr (List.mem_append_right _ hnew))
  | other name => exact .inl hc

/-- **After a claim that raised**, the handling acknowledges a refusal and
ends on anything else. -/
theorem stage_claimError {s : WorkerState} {command : RunCommand} (e : WorkerException)
    (s' : WorkerState) (hs' : (s.noteStatus command e).refused ⊆ s'.refused) :
    EntryStage s' command (afterClaim (.error e)) := by
  cases e with
  | httpStatus code =>
    by_cases hcode : code ∈ refusals
    · refine .inr (.inr (.inr (.inr (hs' ?_))))
      have hmem : claimOf command ∈ refusalOf command code := by simp [refusalOf, hcode]
      exact List.mem_append_right _ hmem
    · have hraise : afterClaim (.error (.httpStatus code)) = .raise (.httpStatus code) :=
        if_neg hcode
      rw [hraise]
      exact .inr (.inr (.inl rfl))
  | other name => exact .inr (.inr (.inl rfl))

/-- The stream is only appended to. -/
theorem stream_step (s : State) (e : Event) : s.stream <+: (step s e).stream := by
  unfold step
  split
  · exact List.prefix_refl _
  · exact List.prefix_append _ _

theorem beyond_serve {s : WorkerState} (hs : Sound s.plane) (service : ClaimService)
    (command : RunCommand) : Beyond s (s.serve service command) := by
  unfold WorkerState.serve
  split
  · refine ⟨hs.step _, attemptNos_later (dbLater_step hs _), List.Subset.refl _, ?_⟩
    exact stream_step s.plane _
  · exact beyond_noteStatus hs command _

theorem beyond_noteLost {s : WorkerState} (hs : Sound s.plane) (command : RunCommand)
    (lost : Option WorkerException) : Beyond s (s.noteLost command lost) := by
  cases lost with
  | none => exact ⟨hs, id, List.Subset.refl _, List.prefix_refl _⟩
  | some e => exact beyond_noteStatus hs command e

theorem served_serve {s : WorkerState} (hs : Sound s.plane) (service : ClaimService)
    (command : RunCommand) : ∀ claim ∈ (s.serve service command).served,
      claim ∈ s.served ∨ Settled (s.serve service command) claim := by
  intro claim hc
  unfold WorkerState.serve at hc ⊢
  split at hc
  · rename_i response hanswer
    rcases List.mem_append.mp hc with hold | hnew
    · exact .inl hold
    · rw [List.mem_singleton.mp hnew]
      exact .inr (.inl (attempt_of_claimAnswer hs hanswer))
  · exact served_noteStatus claim hc

/-- The handlings and the acknowledgements are no concern of a claim. -/
theorem serve_handlings (s : WorkerState) (service : ClaimService) (command : RunCommand)
    (lost : Option WorkerException) :
    ((s.serve service command).noteLost command lost).handlings = s.handlings ∧
      ((s.serve service command).noteLost command lost).acked = s.acked := by
  have hnote : ∀ (x : WorkerState) (e : WorkerException),
      (x.noteStatus command e).handlings = x.handlings ∧
        (x.noteStatus command e).acked = x.acked := fun x e => by
    cases e <;> exact ⟨rfl, rfl⟩
  have hserve : (s.serve service command).handlings = s.handlings ∧
      (s.serve service command).acked = s.acked := by
    unfold WorkerState.serve
    split
    · exact ⟨rfl, rfl⟩
    · exact hnote s _
  cases lost with
  | none => exact hserve
  | some e =>
    obtain ⟨hhandlings, hacked⟩ := hnote (s.serve service command) e
    exact ⟨hhandlings.trans hserve.1, hacked.trans hserve.2⟩

/-- **After the claim** the attempt exists, or the claim was refused, or the
handling has ended. -/
theorem stage_claimed {s : WorkerState} (hs : Sound s.plane) (service : ClaimService)
    (command : RunCommand) (lost : Option WorkerException) :
    EntryStage ((s.serve service command).noteLost command lost) command
      (afterClaim (answered lost ((claimAnswer s.plane service command).mapError
        fun e => .httpStatus e.httpStatus))) := by
  cases lost with
  | some e => exact stage_claimError e _ (List.Subset.refl _)
  | none =>
    cases hanswer : claimAnswer s.plane service command with
    | ok response =>
      refine .inr (.inr (.inr (.inl ?_)))
      simp only [WorkerState.noteLost, WorkerState.serve, hanswer]
      exact attempt_of_claimAnswer hs hanswer
    | error e =>
      refine stage_claimError (s := s) (.httpStatus e.httpStatus) _ ?_
      simp only [WorkerState.noteLost, WorkerState.serve, hanswer]
      exact List.Subset.refl _

/-- The handling waits for its `SET NX`. -/
def Handling.waitsKey (h : Handling) : Bool :=
  match h.program.effect? with
  | some .setNx => true
  | _ => false

/-- **A key that is found tells of a claim that was served.** -/
def KeyServed (s : WorkerState) : WorkerEvent → Prop
  | .perform i _ _ => ∀ h ∈ s.handlings[i]?, ∀ command ∈ s.plane.stream[h.entry]?,
      h.waitsKey → command.commandId ∈ s.keys → claimOf command ∈ s.served
  | _ => True

instance : ∀ s e, Decidable (KeyServed s e)
  | s, .perform i _ _ => inferInstanceAs (Decidable (∀ h ∈ s.handlings[i]?,
      ∀ command ∈ s.plane.stream[h.entry]?,
        h.waitsKey → command.commandId ∈ s.keys → claimOf command ∈ s.served))
  | _, .plane _ => isTrue trivial
  | _, .deliver _ => isTrue trivial
  | _, .expire _ => isTrue trivial
  | _, .fail _ _ => isTrue trivial

/-- A handling that waits for an effect of its own stretch. -/
theorem EntryStage.settled {s : WorkerState} {command : RunCommand} {effect : WorkerEffect}
    {k : Except WorkerException effect.Answer → WorkerProgram Unit}
    (h : EntryStage s command (.perform effect k)) (hset : effect ≠ .setNx) (hclaim : effect ≠ .claim) :
    Settled s (claimOf command) := by
  rcases h with h | h | h | h
  · exact absurd (Option.some.inj (congrArg Program.effect? h)) hset
  · exact absurd (Option.some.inj (congrArg Program.effect? h)) hclaim
  · exact absurd h (by simp)
  · exact h

theorem EntryStage.setNx {s : WorkerState} {command : RunCommand}
    {k : Except WorkerException Bool → WorkerProgram Unit}
    (h : EntryStage s command (.perform .setNx k)) :
    k = afterSetNx command ∨ Settled s (claimOf command) := by
  rcases h with h | h | h | h
  · exact .inl (by simpa using h)
  · exact absurd (Option.some.inj (congrArg Program.effect? h)) (by simp)
  · exact absurd h (by simp)
  · exact .inr h

theorem EntryStage.claim {s : WorkerState} {command : RunCommand}
    {k : Except WorkerException ClaimResponse → WorkerProgram Unit}
    (h : EntryStage s command (.perform .claim k)) : k = afterClaim ∨ Settled s (claimOf command) := by
  rcases h with h | h | h | h
  · exact absurd (Option.some.inj (congrArg Program.effect? h)) (by simp)
  · exact .inl (by simpa using h)
  · exact absurd h (by simp)
  · exact .inr h

theorem WorkerInv.perform {s : WorkerState} (hinv : WorkerInv s) {i : ℕ}
    {service : ClaimService} {lost : Option WorkerException}
    (hkey : KeyServed s (.perform i service lost)) : WorkerInv (s.perform i service lost) := by
  unfold WorkerState.perform
  split
  · exact hinv
  · rename_i h hi
    obtain ⟨command, hcommand, hstage⟩ := hinv.staged h (List.mem_of_getElem? hi)
    rw [hcommand]
    -- A handling past its claim stays settled, whatever comes of its effects.
    have hpast : ∀ {effect : WorkerEffect} {k : Except WorkerException effect.Answer → _},
        h.program = .perform effect k → effect ≠ .setNx → effect ≠ .claim →
        ∀ program, OnEntry (s.resume i h.entry program) h.entry fun command =>
          EntryStage (s.resume i h.entry program) command program := by
      intro effect k hprog hset hclaim program
      refine ⟨command, hcommand, fun htype => .inr (.inr (.inr ?_))⟩
      have hwaits := hstage htype
      simp only [hprog] at hwaits
      exact hwaits.settled hset hclaim
    have hsame : ∀ program, Beyond s (s.resume i h.entry program) :=
      fun _ => ⟨hinv.sound, id, List.Subset.refl _, List.prefix_refl _⟩
    split
    · rename_i k _ hprog hc
      obtain rfl := Option.some.inj hc
      refine hinv.of_beyond ⟨hinv.sound, id, List.Subset.refl _, List.prefix_refl _⟩
        (fun claim hc => .inl hc) (staged_resume rfl ?_) (fun entry he => .inl he)
      refine ⟨command, hcommand, fun htype => ?_⟩
      have hwaits := hstage htype
      simp only [hprog] at hwaits
      rcases hwaits.setNx with rfl | hsettled
      · cases lost with
        | some e => exact .inr (.inr (.inl rfl))
        | none =>
          by_cases hfound : command.commandId ∈ s.keys
          · have hwaitsKey : h.waitsKey = true := by simp [Handling.waitsKey, hprog]
            have hserved := hkey h hi command hcommand hwaitsKey hfound
            exact .inr (.inr (.inr (hinv.served _ hserved)))
          · simp only [answered, hfound, not_false_eq_true, decide_true]
            exact .inr (.inl (claimEntry_eq htype))
      · exact .inr (.inr (.inr hsettled))
    · rename_i k _ hprog hc
      obtain rfl := Option.some.inj hc
      have hserve := beyond_serve hinv.sound service command
      have hlost := beyond_noteLost hserve.sound command lost
      have hall := hserve.trans hlost
      obtain ⟨hhandlings, hackedSame⟩ := serve_handlings s service command lost
      refine hinv.of_beyond ⟨hall.sound, hall.attempts, hall.refused, hall.stream⟩
        (fun claim hc => ?_) (staged_resume hhandlings ?_)
        (fun entry he => .inl (hackedSame ▸ he))
      · have hcases : claim ∈ (s.serve service command).served ∨
            Settled ((s.serve service command).noteLost command lost) claim := by
          cases lost with
          | none => exact .inl hc
          | some e => exact served_noteStatus claim hc
        rcases hcases with hserved | hsettled
        · rcases served_serve hinv.sound service command claim hserved with hold | hsettled
          · exact .inl hold
          · exact .inr (hlost.settled hsettled)
        · exact .inr hsettled
      · obtain ⟨rest, hrest⟩ := hall.stream
        refine ⟨command, ?_, fun htype => ?_⟩
        · change ((s.serve service command).noteLost command lost).plane.stream[h.entry]? = _
          rw [← hrest, List.getElem?_append_left (List.getElem?_eq_some_iff.mp hcommand).1]
          exact hcommand
        · have hwaits := hstage htype
          simp only [hprog] at hwaits
          rcases hwaits.claim with rfl | hsettled
          · exact stage_claimed hinv.sound service command lost
          · exact .inr (.inr (.inr (hall.settled hsettled)))
    · rename_i attemptId k _ hprog _
      exact hinv.of_beyond (hsame _) (fun claim hc => .inl hc)
        (staged_resume rfl (hpast hprog (by simp) (by simp) _)) (fun entry he => .inl he)
    · rename_i attemptId k _ hprog _
      exact hinv.of_beyond (hsame _) (fun claim hc => .inl hc)
        (staged_resume rfl (hpast hprog (by simp) (by simp) _)) (fun entry he => .inl he)
    · rename_i k _ hprog _
      refine hinv.of_beyond ⟨hinv.sound, id, List.Subset.refl _, List.prefix_refl _⟩
        (fun claim hc => .inl hc) (staged_resume rfl (hpast hprog (by simp) (by simp) _))
        (fun entry he => ?_)
      rcases List.mem_append.mp he with hold | hnew
      · exact .inl hold
      · rw [List.mem_singleton.mp hnew]
        refine .inr ⟨command, hcommand, fun htype => ?_⟩
        have hwaits := hstage htype
        simp only [hprog] at hwaits
        exact hwaits.settled (by simp) (by simp)
    · exact hinv

theorem WorkerInv.fail {s : WorkerState} (hinv : WorkerInv s) (i : ℕ) (e : WorkerException) :
    WorkerInv (s.fail i e) := by
  unfold WorkerState.fail
  split
  · exact hinv
  · rename_i h hi
    obtain ⟨command, hcommand, hstage⟩ := hinv.staged h (List.mem_of_getElem? hi)
    rw [hcommand]
    split
    · rename_i k _ hprog hc
      obtain rfl := Option.some.inj hc
      have hnote := beyond_noteStatus hinv.sound command e
      have hkept : (s.noteStatus command e).handlings = s.handlings ∧
          (s.noteStatus command e).acked = s.acked ∧ (s.noteStatus command e).plane = s.plane := by
        cases e <;> exact ⟨rfl, rfl, rfl⟩
      refine hinv.of_beyond ⟨hnote.sound, hnote.attempts, hnote.refused, hnote.stream⟩
        (served_noteStatus) (staged_resume hkept.1 ?_) (fun entry he => .inl (hkept.2.1 ▸ he))
      refine ⟨command, ?_, fun htype => ?_⟩
      · change (s.noteStatus command e).plane.stream[h.entry]? = _
        rw [hkept.2.2]
        exact hcommand
      · have hwaits := hstage htype
        simp only [hprog] at hwaits
        rcases hwaits.claim with rfl | hsettled
        · exact stage_claimError e _ (List.Subset.refl _)
        · exact .inr (.inr (.inr (hnote.settled hsettled)))
    · rename_i effect k _ hnotClaim hprog _
      refine hinv.of_beyond ⟨hinv.sound, id, List.Subset.refl _, List.prefix_refl _⟩
        (fun claim hc => .inl hc) (staged_resume rfl ?_) (fun entry he => .inl he)
      refine ⟨command, hcommand, fun htype => ?_⟩
      have hwaits := hstage htype
      simp only [hprog] at hwaits
      cases effect with
      | setNx =>
        rcases hwaits.setNx with rfl | hsettled
        · exact .inr (.inr (.inl rfl))
        · exact .inr (.inr (.inr hsettled))
      | claim =>
        rcases hwaits.claim with rfl | hsettled
        · exact (hnotClaim _ rfl HEq.rfl).elim
        · exact .inr (.inr (.inr hsettled))
      | _ => exact .inr (.inr (.inr (hwaits.settled (by simp) (by simp))))
    · exact hinv

/-- **Every admitted event keeps the invariant.** -/
theorem WorkerInv.step {s : WorkerState} (hinv : WorkerInv s) (e : WorkerEvent)
    (hkey : KeyServed s e) : WorkerInv (workers.step s e) := by
  cases e with
  | plane e =>
    refine hinv.of_beyond ⟨hinv.sound.step e, attemptNos_later (dbLater_step hinv.sound e),
      List.Subset.refl _, stream_step s.plane e⟩ (fun claim hc => .inl hc) (fun x hx => .inl hx)
      (fun entry he => .inl he)
  | deliver entry =>
    change WorkerInv (s.deliver entry)
    unfold WorkerState.deliver
    split
    · rename_i command hcommand
      refine hinv.of_beyond ⟨hinv.sound, id, List.Subset.refl _, List.prefix_refl _⟩
        (fun claim hc => .inl hc) (fun x hx => ?_) (fun entry he => .inl he)
      rcases List.mem_append.mp hx with hold | hnew
      · exact .inl hold
      · rw [List.mem_singleton.mp hnew]
        exact .inr ⟨command, hcommand, fun htype => stage_handleEntry _ htype⟩
    · exact hinv
  | expire id => exact ⟨hinv.sound, hinv.served, hinv.staged, hinv.acked⟩
  | perform i service lost => exact hinv.perform hkey
  | fail i e => exact hinv.fail i e

/-! ## Acknowledged is executed -/

/-- A fixture command whose claim times out, and which is taken over. -/
def timedOutRun : List WorkerEvent := [
  .plane (.createTask (envAt 0) { fixtureId := "fake", agentKind := .selfLanggraph }),
  .plane (.publish 0 0 0 1),
  .deliver 0,
  .perform 0 ⟨envAt 1000, "one", 1, 1⟩ none,
  .fail 0 (.other "ReadTimeout"),
  .deliver 0,
  .perform 1 ⟨envAt 90000, "two", 1, 1⟩ none,
  .perform 1 ⟨envAt 90000, "two", 1, 1⟩ none]

/-- **The entry is acknowledged away**: no attempt of its run exists, and the
control plane has refused no claim. -/
theorem unclaimed_acknowledged :
    ¬ ∀ (es : List WorkerEvent) (entry : ℕ) (command : RunCommand),
      entry ∈ (workers.run es).acked → (workers.run es).plane.stream[entry]? = some command →
      command.type ≠ .cancelRun →
      command.attemptNo ∈ (workers.run es).plane.db.attemptNos command.runId ∨
        (command.runId, command.attemptNo) ∈ (workers.run es).refused := by
  intro h
  obtain ⟨command, hcommand⟩ :
    ∃ command, (workers.run timedOutRun).plane.stream[0]? = some command := ⟨_, rfl⟩
  have hfields : ((workers.run timedOutRun).plane.stream[0]?).map
      (fun c => (c.type, c.runId)) = some (.startRun, 0) := by decide
  rw [hcommand, Option.map_some, Option.some.injEq, Prod.mk.injEq] at hfields
  have hsettled := h timedOutRun 0 command (by decide) hcommand (by rw [hfields.1]; decide)
  have hnone : (workers.run timedOutRun).plane.db.attemptNos 0 = [] ∧
      (workers.run timedOutRun).refused = [] := by decide
  rw [hfields.2, hnone.1, hnone.2] at hsettled
  exact hsettled.elim (List.not_mem_nil) (List.not_mem_nil)

/-- **No command is acknowledged away unexecuted**, as long as no key is
found before a claim of its command was served: the attempt an
acknowledged command names exists, or the control plane refused its claim. -/
theorem acknowledged_claimed (es : List WorkerEvent)
    (hes : workers.Admits KeyServed workers.init es) :
    ∀ entry ∈ (workers.run es).acked, ∃ command,
      (workers.run es).plane.stream[entry]? = some command ∧ (command.type ≠ .cancelRun →
        command.attemptNo ∈ (workers.run es).plane.db.attemptNos command.runId ∨
          (command.runId, command.attemptNo) ∈ (workers.run es).refused) := by
  have hinit : WorkerInv workers.init :=
    ⟨Sound.init, by simp [workers], by simp [workers], by simp [workers]⟩
  have hinv : WorkerInv (workers.run es) :=
    workers.runFrom_of_admits (P := WorkerInv) (fun _ e hs he => WorkerInv.step hs e he) hinit hes
  exact hinv.acked

/-- A fixture command that is executed, and taken over before its entry is
acknowledged. -/
def takenOverRun : List WorkerEvent := [
  .plane (.createTask (envAt 0) { fixtureId := "fake", agentKind := .selfLanggraph }),
  .plane (.publish 0 0 0 1),
  .deliver 0,
  .perform 0 ⟨envAt 1000, "one", 1, 1⟩ none,
  .perform 0 ⟨envAt 1000, "one", 1, 1⟩ (some (.other "ReadTimeout")),
  .deliver 0,
  .perform 1 ⟨envAt 90000, "two", 1, 1⟩ none,
  .perform 1 ⟨envAt 90000, "two", 1, 1⟩ none]

/-- The claim was granted though its answer was lost, so its key may be
found. -/
theorem acknowledged_of_takenOver :
    workers.Admits KeyServed workers.init takenOverRun ∧ 0 ∈ (workers.run takenOverRun).acked ∧
      ∃ command, (workers.run takenOverRun).plane.stream[0]? = some command ∧
        (command.type ≠ .cancelRun →
          command.attemptNo ∈ (workers.run takenOverRun).plane.db.attemptNos command.runId ∨
            (command.runId, command.attemptNo) ∈ (workers.run takenOverRun).refused) := by
  have hadmits : workers.Admits KeyServed workers.init takenOverRun := by decide
  have hacked : 0 ∈ (workers.run takenOverRun).acked := by decide
  exact ⟨hadmits, hacked, acknowledged_claimed takenOverRun hadmits 0 hacked⟩

end Runtime

end AgentReliability
