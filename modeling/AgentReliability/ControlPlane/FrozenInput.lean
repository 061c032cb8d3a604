import AgentReliability.ControlPlane.Confirmation
/-!
# The input of a task is frozen

Every command of a run is built anew: a snapshot's from the snapshot and
the path of its repository, a fixture's from the registry as it is then,
patched with the repository and the task spec of the first command. The
machine here keeps the repositories beside the control plane, so that the
path a command carries is read from a table that is written to in between.
-/

namespace AgentReliability

namespace ControlPlane

variable {ctx : Context} {r r' : RunRows} {id : RunId}

/-! ## The repositories -/

/-- A `Project` row with its configuration versions. -/
structure Project where
  id : String
  repoPath : String
  configs : List RepositoryConfig

structure Platform where
  projects : List Project := []
  plane : State := {}

namespace Platform

variable (p : Platform)

/-- The `repoPath` of a repository. -/
def repoPath? (repositoryId : String) : Option String :=
  (p.projects.find? fun project => project.id = repositoryId).map (·.repoPath)

/-- `run.task.project.repoPath`. A fixture run belongs to the default
project, whose path is empty. -/
def pathOf (id : RunId) : String :=
  match p.plane.db.runs[id]?.bind (·.task.snapshot) with
  | some snapshot => (p.repoPath? snapshot.repositoryId).getD ""
  | none => ""

/-- `RepositoryService.create`, under a fresh id. -/
def createRepository (id repoPath : String) (config : RepositoryConfig) : Platform :=
  if (p.repoPath? id).isSome then p
  else { p with projects := p.projects ++ [{ id, repoPath, configs := [config] }] }

/-- `RepositoryService.configure`: one more version of the configuration. -/
def configure (id : String) (config : RepositoryConfig) : Platform :=
  { p with projects := p.projects.map fun project =>
      if project.id = id then { project with configs := project.configs ++ [config] }
      else project }

end Platform

/-- The run a request is about. -/
def Request.runId : Request → RunId
  | .claim input _ _ => input.runId
  | .heartbeat id _ _ => id.runId
  | .complete id _ _ _ _ => id.runId
  | .saveCheckpoint runId _ _ _ => runId
  | .leaseExpired id _ => id.runId
  | .phase id _ _ _ => id.runId
  | .pause id _ _ _ => id.runId
  | .pauseRun runId _ => runId
  | .cancel runId => runId
  | .resume runId => runId
  | .reserve runId _ _ _ _ => runId
  | .settle runId _ _ => runId
  | .ingest runId _ _ => runId
  | .markPublished runId _ => runId
  | .countFailure runId _ => runId
  | .republish runId _ _ _ => runId

inductive PlatformEvent where
  | createRepository (id repoPath : String) (config : RepositoryConfig)
  | configure (id : String) (config : RepositoryConfig)
  | plane (event : Event)

/-- An event with the path of its repository. A draft belongs to the
repository its snapshot names, and `confirm` fails without it. -/
def Event.located (p : Platform) : Event → Option Event
  | .confirm env input readAt =>
    (p.repoPath? input.draft.snapshot.repositoryId).map fun repoPath =>
      .confirm { env with repoPath } input readAt
  | .request env req => some (.request { env with repoPath := p.pathOf req.runId } req)
  | .environment env id token fingerprint imageId log =>
    some (.environment { env with repoPath := p.pathOf id.runId } id token fingerprint imageId log)
  | e => some e

def Platform.onPlane (p : Platform) (e : Event) : Platform :=
  match e.located p with
  | some e => { p with plane := ControlPlane.step p.plane e }
  | none => p

def Platform.step (p : Platform) : PlatformEvent → Platform
  | .createRepository id repoPath config => p.createRepository id repoPath config
  | .configure id config => p.configure id config
  | .plane e => p.onPlane e

/-- The control plane with its repositories, started on empty tables. -/
def platform : Machine Platform PlatformEvent where
  init := {}
  step := Platform.step

/-- A repository that is there keeps its path. -/
theorem repoPath?_step {p : Platform} {id path : String} (h : p.repoPath? id = some path)
    (e : PlatformEvent) : (platform.step p e).repoPath? id = some path := by
  cases e with
  | createRepository id' repoPath config =>
    change (p.createRepository id' repoPath config).repoPath? id = some path
    unfold Platform.createRepository
    split
    · exact h
    · unfold Platform.repoPath? at h ⊢
      obtain ⟨project, hproject, rfl⟩ := Option.map_eq_some_iff.mp h
      rw [List.find?_append, hproject]
      rfl
  | configure id' config =>
    change (p.configure id' config).repoPath? id = some path
    unfold Platform.configure Platform.repoPath? at *
    rw [List.find?_map, Option.map_map]
    -- A new version changes neither the id nor the path of a project.
    have hid : ((fun project : Project => decide (project.id = id)) ∘ fun project =>
        if project.id = id' then { project with configs := project.configs ++ [config] }
        else project) = fun project => decide (project.id = id) := by
      funext project
      simp only [Function.comp_apply]
      split <;> rfl
    have hpath : ((fun project : Project => project.repoPath) ∘ fun project =>
        if project.id = id' then { project with configs := project.configs ++ [config] }
        else project) = fun project => project.repoPath := by
      funext project
      simp only [Function.comp_apply]
      split <;> rfl
    rw [hid, hpath]
    exact h
  | plane e =>
    change (p.onPlane e).repoPath? id = some path
    unfold Platform.onPlane
    split <;> exact h

/-- The control plane of the platform is a control plane. -/
theorem reachable_plane (es : List PlatformEvent) : machine.Reachable (platform.run es).plane := by
  refine platform.invariant (P := fun p => machine.Reachable p.plane) ⟨[], rfl⟩ ?_
    (platform.reachable_run es)
  intro p e h
  cases e with
  | plane e =>
    change machine.Reachable (p.onPlane e).plane
    unfold Platform.onPlane
    split
    · exact h.step _
    · exact h
  | createRepository id repoPath config =>
    change machine.Reachable (p.createRepository id repoPath config).plane
    unfold Platform.createRepository
    split <;> exact h
  | configure id config => exact h

/-- The transaction a request goes on to is on its run. -/
theorem Request.runId_of_prepare {s : State} {env : Env} {req : Request} {tx : Transaction}
    (h : req.prepare s env = .ok (some tx)) : tx.runId = req.runId := by
  cases Request.goesTo h <;> rfl

/-! ## What the commands of a run share -/

/-- The fields of a command that say what the task is. -/
structure TaskInput where
  snapshot : Option TaskSnapshot
  runId : RunId
  agentKind : AgentKind
  repo : Repo
  taskSpec : TaskSpec
  tokens : ℕ
  seconds : ℕ
  turns : ℕ

def RunCommand.input (c : RunCommand) : TaskInput where
  snapshot := c.snapshot
  runId := c.runId
  agentKind := c.agentKind
  repo := c.repo
  taskSpec := c.taskSpec
  tokens := c.budget.tokens
  seconds := c.budget.seconds
  turns := c.budget.turns

/-- Commands with one input differ in the fields that count the attempts,
the checkpoints and the budget that is left, and in no other. -/
theorem RunCommand.eq_of_input {c d : RunCommand} (h : c.input = d.input) :
    d = { c with
      commandId := d.commandId, type := d.type, attemptNo := d.attemptNo
      checkpointId := d.checkpointId
      budget := {
        tokens := c.budget.tokens, seconds := c.budget.seconds, turns := c.budget.turns
        remainingTokens := d.budget.remainingTokens
        remainingSeconds := d.budget.remainingSeconds } } := by
  obtain ⟨hsnapshot, hrunId, hagent, hrepo, hspec, htokens, hseconds, hturns⟩ :=
    TaskInput.mk.inj h
  rw [hsnapshot, hrunId, hagent, hrepo, hspec, htokens, hseconds, hturns]

/-- The input is the run's own. -/
structure TaskInput.OfRun (i : TaskInput) (id : RunId) (r : RunRows) : Prop where
  runId : i.runId = id
  agentKind : i.agentKind = r.run.agentKind
  baseCommit : i.repo.baseCommit = r.run.baseCommit
  snapshot : i.snapshot = r.task.snapshot
  tokens : i.tokens = r.run.budgetTokens
  seconds : i.seconds = r.run.budgetSeconds
  turns : i.turns = r.run.budgetTurns

/-- A command resumes exactly when it names a checkpoint, and it names one
of its run. -/
structure RunCommand.Resumes (c : RunCommand) (r : RunRows) : Prop where
  type : c.type = .resumeRun ↔ c.checkpointId.isSome
  checkpoint : ∀ k ∈ c.checkpointId, ∃ checkpoint, r.checkpoints[k]? = some checkpoint

def RunRows.commands (r : RunRows) : List RunCommand := r.outbox.map (·.payload)

/-- **The commands of the run `id` carry one input**, the run's own. -/
structure FrozenInv (p : Platform) (id : RunId) (r : RunRows) : Prop where
  input : ∃ i : TaskInput, i.OfRun id r ∧ r.commands ≠ [] ∧ (∀ c ∈ r.commands, c.input = i) ∧
    ∀ snapshot ∈ r.task.snapshot, ∃ path, p.repoPath? snapshot.repositoryId = some path ∧
      i = (commandFromSnapshot snapshot path id 1 0 0 none).input
  resumes : ∀ c ∈ r.commands, c.Resumes r
  checkpoints : ∀ c ∈ r.checkpoints, c.attemptId.runId = id ∧ c.baseCommit = r.run.baseCommit

/-- A transaction reads the path its run's commands carry. -/
def PathRead (p : Platform) (ctx : Context) (r : RunRows) : Prop :=
  ∀ snapshot ∈ r.task.snapshot, ctx.repoPath = (p.repoPath? snapshot.repositoryId).getD ""

section Writes

variable {p : Platform}

theorem TaskInput.OfRun.sameInput {i : TaskInput} (h : i.OfRun id r) (hs : SameInput r r') :
    i.OfRun id r' where
  runId := h.runId
  agentKind := h.agentKind.trans hs.agentKind.symm
  baseCommit := h.baseCommit.trans hs.baseCommit.symm
  snapshot := by rw [h.snapshot, hs.task]
  tokens := h.tokens.trans hs.budget.1.symm
  seconds := h.seconds.trans hs.budget.2.1.symm
  turns := h.turns.trans hs.budget.2.2.symm

/-- The run has at most more commands of its input, and more checkpoints. -/
theorem FrozenInv.grow (h : FrozenInv p id r) (hs : SameInput r r') (sent : List RunCommand)
    (saved : List Checkpoint) (hcommands : r'.commands = r.commands ++ sent)
    (hcheckpoints : r'.checkpoints = r.checkpoints ++ saved)
    (hsent : ∀ c ∈ sent, (∀ d ∈ r.commands, c.input = d.input) ∧ c.Resumes r')
    (hsaved : ∀ c ∈ saved, c.attemptId.runId = id ∧ c.baseCommit = r.run.baseCommit) :
    FrozenInv p id r' := by
  obtain ⟨i, hrun, hne, hinput, hlocated⟩ := h.input
  obtain ⟨first, hfirst⟩ := List.exists_mem_of_ne_nil _ hne
  refine ⟨⟨i, hrun.sameInput hs, ?_, fun c hc => ?_, ?_⟩, fun c hc => ?_, fun c hc => ?_⟩
  · rw [hcommands]
    exact List.append_ne_nil_of_left_ne_nil hne _
  · rw [hcommands, List.mem_append] at hc
    rcases hc with hc | hc
    · exact hinput c hc
    · exact ((hsent c hc).1 first hfirst).trans (hinput first hfirst)
  · have hsnapshot : r'.task.snapshot = r.task.snapshot := by rw [hs.task]
    rw [hsnapshot]
    exact hlocated
  · rw [hcommands, List.mem_append] at hc
    rcases hc with hc | hc
    · obtain ⟨htype, hcheckpoint⟩ := h.resumes c hc
      refine ⟨htype, fun k hk => ?_⟩
      obtain ⟨checkpoint, hk⟩ := hcheckpoint k hk
      refine ⟨checkpoint, ?_⟩
      rw [hcheckpoints, List.getElem?_append_left (List.getElem?_eq_some_iff.mp hk).1]
      exact hk
    · exact (hsent c hc).2
  · rw [hcheckpoints, List.mem_append] at hc
    rw [hs.baseCommit]
    rcases hc with hc | hc
    · exact h.checkpoints c hc
    · exact hsaved c hc

theorem FrozenInv.keep (h : FrozenInv p id r) (hs : SameInput r r')
    (hcommands : r'.commands = r.commands) (hcheckpoints : r'.checkpoints = r.checkpoints) :
    FrozenInv p id r' :=
  h.grow hs [] [] (by rw [hcommands, List.append_nil])
    (by rw [hcheckpoints, List.append_nil]) (by simp) (by simp)

theorem latestCheckpoint_mem {k : CheckpointId} (h : r.latestCheckpoint = some k) :
    ∃ checkpoint, r.checkpoints[k]? = some checkpoint := by
  unfold RunRows.latestCheckpoint at h
  split at h
  · exact absurd h (by simp)
  · rename_i hne
    obtain rfl := Option.some.inj h
    have hpos : 0 < r.checkpoints.length := by
      cases hr : r.checkpoints with
      | nil => exact absurd (by rw [hr]; rfl) hne
      | cons => simp
    exact ⟨_, List.getElem?_eq_getElem (by omega)⟩

/-- **A composed command carries the input of the run**, and resumes from a
checkpoint of it or not at all. -/
theorem Composes.frozen {c : RunCommand} (hinv : FrozenInv p id r) (hid : ctx.runId = id)
    (hpath : PathRead p ctx r) (h : Composes ctx r c) :
    (∀ d ∈ r.commands, c.input = d.input) ∧ c.Resumes r := by
  obtain ⟨i, hrun, hne, hinput, hlocated⟩ := hinv.input
  subst hid
  -- A command of the snapshot is the first one but for the fields that count.
  have hsnapshot : ∀ (snapshot : TaskSnapshot) (no usedTokens : ℕ) (usedSeconds : ℤ)
      (checkpoint : Option CheckpointId), r.task.snapshot = some snapshot →
      (commandFromSnapshot snapshot ctx.repoPath ctx.runId no usedTokens usedSeconds
        checkpoint).input = i := by
    intro snapshot no usedTokens usedSeconds checkpoint hs
    obtain ⟨path, hfound, rfl⟩ := hlocated snapshot hs
    have hread := hpath snapshot hs
    rw [hfound, Option.getD_some] at hread
    rw [hread]
    rfl
  have htyped : ∀ (snapshot : TaskSnapshot) (no usedTokens : ℕ) (usedSeconds : ℤ)
      (checkpoint : Option CheckpointId),
      (∀ k ∈ checkpoint, ∃ saved, r.checkpoints[k]? = some saved) →
      (commandFromSnapshot snapshot ctx.repoPath ctx.runId no usedTokens usedSeconds
        checkpoint).Resumes r := by
    intro snapshot no usedTokens usedSeconds checkpoint hknown
    refine ⟨?_, hknown⟩
    cases checkpoint <;> simp [commandFromSnapshot]
  cases h with
  | @retry action no _ h =>
    have hknown : ∀ k ∈ (if action = .resume then r.latestCheckpoint else none),
        ∃ saved, r.checkpoints[k]? = some saved := by
      intro k hk
      split at hk
      · exact latestCheckpoint_mem hk
      · exact absurd hk (by simp)
    unfold retryCommand at h
    split at h
    · rename_i snapshot hs
      obtain rfl := pure_eq_ok.mp h
      exact ⟨fun d hd => (hsnapshot _ _ _ _ _ hs).trans (hinput d hd).symm,
        htyped _ _ _ _ _ hknown⟩
    · rename_i hs
      simp only [bind_eq_ok, buildRunCommand, orThrow_eq_ok, pure_eq_ok] at h
      obtain ⟨built, ⟨fixture, -, rfl⟩, h⟩ := h
      obtain ⟨first, rest, hcommands⟩ := List.exists_cons_of_ne_nil hne
      have hhead : r.outbox.head?.map (·.payload) = some first := by
        rw [← List.head?_map]
        exact congrArg List.head? hcommands
      split at h
      · rename_i hnone
        rw [hnone] at hhead
        exact absurd hhead (by simp)
      · rename_i original horiginal
        rw [horiginal, Option.map_some, Option.some.injEq] at hhead
        simp only [bind_eq_ok, pure_eq_ok] at h
        obtain ⟨-, -, rfl⟩ := h
        have hfirst : original.payload.input = i := by
          rw [hhead]
          exact hinput first (by rw [hcommands]; exact List.mem_cons_self)
        refine ⟨fun d hd => ?_, ?_, hknown⟩
        · rw [hinput d hd, ← hfirst]
          rw [← hfirst] at hrun
          obtain ⟨hrunId, hagent, -, hsnap, htokens, hseconds, hturns⟩ := hrun
          rw [hs] at hsnap
          exact TaskInput.mk.injEq .. ▸
            ⟨hsnap.symm, hrunId.symm, hagent.symm, rfl, rfl, htokens.symm, hseconds.symm,
              hturns.symm⟩
        · by_cases haction : action = .resume <;> simp [haction, Option.isSome_iff_ne_none]
  | resume hs =>
    exact ⟨fun d hd => (hsnapshot _ _ _ _ _ hs).trans (hinput d hd).symm,
      htyped _ _ _ _ _ fun k hk => latestCheckpoint_mem hk⟩

theorem kept_of_recordEvent {attemptId : Option AttemptId} {attemptSequence : ℕ}
    {type : TraceEventType} {payload : TracePayload} {key : ℕ → EventKey} {occurredAt : Time}
    (h : recordEvent ctx r attemptId attemptSequence type payload key occurredAt = .ok r') :
    r'.commands = r.commands ∧ r'.checkpoints = r.checkpoints := by
  simp only [recordEvent, bind_eq_ok, pure_eq_ok] at h
  obtain ⟨-, -, rfl⟩ := h
  exact ⟨rfl, rfl⟩

/-- **Every write keeps the commands to one input.** -/
theorem FrozenInv.write (h : FrozenInv p id r) (hid : ctx.runId = id) (hpath : PathRead p ctx r)
    (hw : Write ctx r r') : FrozenInv p id r' := by
  have hs := hw.sameInput
  cases hw with
  | move _ _ hevent =>
    obtain ⟨hcommands, hcheckpoints⟩ := kept_of_recordEvent hevent
    exact h.keep hs hcommands hcheckpoints
  | phase hevent =>
    obtain ⟨hcommands, hcheckpoints⟩ := kept_of_recordEvent hevent
    exact h.keep hs hcommands hcheckpoints
  | event _ hevent =>
    obtain ⟨hcommands, hcheckpoints⟩ := kept_of_recordEvent hevent
    exact h.keep hs hcommands hcheckpoints
  | @send command hcomposes notBefore =>
    obtain ⟨hinput, hresumes⟩ := hcomposes.frozen h hid hpath
    refine h.grow hs [command] [] ?_ (List.append_nil _).symm ?_ (by simp)
    · simp [RunRows.commands, RunRows.send]
    · intro c hc
      rw [List.mem_singleton.mp hc]
      exact ⟨hinput, ⟨hresumes.type, hresumes.checkpoint⟩⟩
  | @checkpoint c hrun hbase =>
    refine h.grow hs [] [c] (List.append_nil _).symm rfl (by simp) ?_
    intro d hd
    rw [List.mem_singleton.mp hd]
    exact ⟨hrun.trans hid, hbase⟩
  | message j hf =>
    exact h.keep hs (payloads_modify hf r.outbox j) rfl
  | _ => exact h.keep hs rfl rfl

/-- Every transaction that reads its run's path keeps them so. -/
theorem FrozenInv.writes (h : FrozenInv p id r) (hid : ctx.runId = id) (hpath : PathRead p ctx r)
    (hw : Writes ctx r r') : FrozenInv p id r' := by
  have hboth : FrozenInv p id r' ∧ SameInput r r' := by
    refine hw.keeps (P := fun x => FrozenInv p id x ∧ SameInput r x) ?_ ⟨h, SameInput.refl r⟩
    intro a b ⟨ha, hsame⟩ hab
    refine ⟨ha.write hid ?_ hab, hsame.trans hab.sameInput⟩
    intro snapshot hs
    rw [hsame.task] at hs
    exact hpath snapshot hs
  exact hboth.1

end Writes

/-! ## A new run -/

section Creation

variable {p : Platform}

/-- The first command of a run has its input. -/
theorem FrozenInv.first {c : RunCommand} (hsent : r.commands = [c]) (hrun : c.input.OfRun id r)
    (hlocated : ∀ snapshot ∈ r.task.snapshot, ∃ path,
      p.repoPath? snapshot.repositoryId = some path ∧
        c.input = (commandFromSnapshot snapshot path id 1 0 0 none).input)
    (htype : c.type = .startRun) (hnone : c.checkpointId = none) (hempty : r.checkpoints = []) :
    FrozenInv p id r where
  input := ⟨c.input, hrun, by simp [hsent], by simp [hsent], hlocated⟩
  resumes := by
    rw [hsent]
    intro d hd
    rw [List.mem_singleton.mp hd]
    exact ⟨by simp [htype, hnone], by simp [hnone]⟩
  checkpoints := by simp [hempty]

theorem createTask_frozen {runs : List RunRows} {input : CreateTaskInput}
    (h : createTask ctx runs input = .ok r) : FrozenInv p ctx.runId r := by
  simp only [createTask, bind_eq_ok, buildRunCommand, orThrow_eq_ok, pure_eq_ok] at h
  obtain ⟨input, -, fixture, -, baseCommit, -, -, -, r₁, h₁, command, ⟨fixture', -, rfl⟩, h₂⟩ := h
  simp only [transitionTask, bind_eq_ok, pure_eq_ok] at h₁
  obtain ⟨-, -, -, -, rfl⟩ := h₁
  have hwrites := Writes.transitionRun h₂
  refine FrozenInv.writes ?_ rfl ?_ hwrites
  · refine FrozenInv.first rfl ⟨rfl, rfl, rfl, rfl, rfl, rfl, rfl⟩ ?_ rfl rfl rfl
    intro snapshot hs
    exact absurd hs (by simp [RunRows.send, fixtureRows])
  · intro snapshot hs
    exact absurd hs (by simp [RunRows.send, fixtureRows])

theorem snapshotRows_frozen {snapshot : TaskSnapshot} {key : String}
    (hpath : p.repoPath? snapshot.repositoryId = some ctx.repoPath) :
    FrozenInv p ctx.runId (snapshotRows ctx snapshot key) := by
  refine FrozenInv.first rfl ⟨rfl, rfl, rfl, rfl, rfl, rfl, rfl⟩ ?_ rfl rfl rfl
  intro s hs
  obtain rfl := Option.some.inj hs
  exact ⟨ctx.repoPath, hpath, rfl⟩

end Creation

/-! ## Every reachable state -/

/-- More repositories leave the input as it is. -/
theorem FrozenInv.mono {p p' : Platform} (h : FrozenInv p id r)
    (hpaths : ∀ repositoryId path, p.repoPath? repositoryId = some path →
      p'.repoPath? repositoryId = some path) : FrozenInv p' id r := by
  obtain ⟨i, hrun, hne, hinput, hlocated⟩ := h.input
  refine ⟨⟨i, hrun, hne, hinput, fun snapshot hs => ?_⟩, h.resumes, h.checkpoints⟩
  obtain ⟨path, hpath, hi⟩ := hlocated snapshot hs
  exact ⟨path, hpaths _ _ hpath, hi⟩

theorem pathRead_of_pathOf {p : Platform} {env : Env}
    (hr : p.plane.db.runs[id]? = some r) (hpath : env.repoPath = p.pathOf id) :
    PathRead p (p.plane.db.context env id) r := by
  intro snapshot hs
  change env.repoPath = _
  rw [hpath, Platform.pathOf, hr, Option.bind_some, hs]

/-- **The rows of a run after an event of the platform**: of a new run with
its input, as they were, or written by one transaction that read the path
of its repository. -/
theorem rows_onPlane {p : Platform} (hs : Sound p.plane) {e e' : Event}
    (he : e.located p = some e') (hr' : (step p.plane e').db.runs[id]? = some r') :
    FrozenInv p id r' ∨ p.plane.db.runs[id]? = some r' ∨
      ∃ ctx r, p.plane.db.runs[id]? = some r ∧ ctx.runId = id ∧ PathRead p ctx r ∧
        Writes ctx r r' := by
  rcases db_step p.plane e' with ⟨db, hc, hdb⟩ | hdb
  · rw [hdb] at hr'
    cases e with
    | createTask env input =>
      obtain rfl := Option.some.inj he
      obtain ⟨r, hr, rfl⟩ := Option.map_eq_some_iff.mp hc
      rcases getElem?_append_one hr' with hold | ⟨rfl, rfl⟩
      · exact .inr (.inl hold)
      · exact .inl (createTask_frozen (toOption_eq_some.mp hr))
    | confirm env input readAt =>
      obtain ⟨path, hpath, rfl⟩ := Option.map_eq_some_iff.mp he
      obtain ⟨r, hr, rfl⟩ := Option.map_eq_some_iff.mp hc
      rcases getElem?_append_one hr' with hold | ⟨rfl, rfl⟩
      · exact .inr (.inl hold)
      · have hnew : FrozenInv p (p.plane.creation { env with repoPath := path }).runId
            (snapshotRows (p.plane.creation { env with repoPath := path }) input.draft.snapshot
              input.key) := snapshotRows_frozen hpath
        rw [(confirmed_some hr).1]
        exact .inl hnew
    | request env req =>
      obtain rfl := Option.some.inj he
      obtain ⟨tx, r, r₁, hprep, hr, hbody, rfl⟩ := Request.commit_eq_some hc
      rcases getElem?_set_one hr' with hold | ⟨rfl, rfl⟩
      · exact .inr (.inl hold)
      · refine .inr (.inr ⟨_, r, hr, rfl, pathRead_of_pathOf hr ?_,
          (hs.rowStep_of_prepare hprep hr hbody).writes (hs.rows hr).1⟩)
        rw [Request.runId_of_prepare hprep]
    | environment env id token fingerprint imageId log =>
      obtain rfl := Option.some.inj he
      obtain ⟨db', hdb', rfl⟩ := Option.map_eq_some_iff.mp hc
      rw [toOption_eq_some] at hdb'
      simp only [Database.transact, bind_eq_ok, orThrow_eq_ok, pure_eq_ok] at hdb'
      obtain ⟨r, hr, r₁, hbody, rfl⟩ := hdb'
      rcases getElem?_set_one hr' with hold | ⟨rfl, rfl⟩
      · exact .inr (.inl hold)
      · exact .inr (.inr ⟨_, r, hr, rfl, pathRead_of_pathOf hr rfl, Writes.environment hbody⟩)
    | publish =>
      obtain rfl := Option.some.inj he
      exact absurd hc (by simp [Event.commit?])
  · rw [hdb] at hr'
    exact .inr (.inl hr')

/-- The commands of every run carry one input, in every reachable state of
the platform. -/
theorem frozenInv_of_run (es : List PlatformEvent) {id : RunId} {r : RunRows}
    (hr : (platform.run es).plane.db.runs[id]? = some r) : FrozenInv (platform.run es) id r := by
  have hall : ∀ (id : RunId) (r : RunRows), (platform.run es).plane.db.runs[id]? = some r →
      FrozenInv (platform.run es) id r := by
    clear hr
    induction es using List.reverseRecOn with
    | nil => exact fun id r hr => absurd hr (by simp [platform, Machine.run])
    | append_singleton es e ih =>
      intro id r' hr'
      have hsound := sound_of_reachable (reachable_plane es)
      rw [platform.run_concat] at hr' ⊢
      have hpaths : ∀ repositoryId path,
          (platform.run es).repoPath? repositoryId = some path →
          (platform.step (platform.run es) e).repoPath? repositoryId = some path :=
        fun _ _ h => repoPath?_step h e
      cases e with
      | createRepository id' repoPath config =>
        have hsame : (platform.step (platform.run es) (.createRepository id' repoPath config)).plane =
            (platform.run es).plane := by
          change ((platform.run es).createRepository id' repoPath config).plane = _
          unfold Platform.createRepository
          split <;> rfl
        rw [hsame] at hr'
        exact (ih id r' hr').mono hpaths
      | configure id' config => exact (ih id r' hr').mono hpaths
      | plane e =>
        change ((platform.run es).onPlane e).plane.db.runs[id]? = some r' at hr'
        refine FrozenInv.mono (p := platform.run es) ?_ hpaths
        unfold Platform.onPlane at hr'
        split at hr'
        · rename_i e' he
          rcases rows_onPlane hsound he hr' with hnew | hold | ⟨ctx, r, hr, hid, hpath, hwrites⟩
          · exact hnew
          · exact ih id r' hold
          · exact (ih id r hr).writes hid hpath hwrites
        · exact ih id r' hr'
  exact hall id r hr

/-- **The input of a task is frozen.** Whatever happens to the registry,
the repositories and the drafts, all commands ever sent for a run are of
its base commit, differ from each other only in the fields that count the
attempts, the checkpoint and the budget left, and resume exactly when they
name a checkpoint, which is one of the run's own and of its base commit. -/
theorem commands_frozen (es : List PlatformEvent) (id : RunId) (r : RunRows)
    (hr : (platform.run es).plane.db.runs[id]? = some r) :
    ∀ m ∈ r.outbox,
      m.payload.repo.baseCommit = r.run.baseCommit ∧
      (m.payload.type = .resumeRun ↔ m.payload.checkpointId.isSome) ∧
      (∀ k ∈ m.payload.checkpointId, ∃ checkpoint : Checkpoint,
        r.checkpoints[k]? = some checkpoint ∧ checkpoint.attemptId.runId = id ∧
          checkpoint.baseCommit = r.run.baseCommit) ∧
      ∀ m' ∈ r.outbox, m'.payload = { m.payload with
        commandId := m'.payload.commandId
        type := m'.payload.type
        attemptNo := m'.payload.attemptNo
        checkpointId := m'.payload.checkpointId
        budget := {
          tokens := m.payload.budget.tokens
          seconds := m.payload.budget.seconds
          turns := m.payload.budget.turns
          remainingTokens := m'.payload.budget.remainingTokens
          remainingSeconds := m'.payload.budget.remainingSeconds } } := by
  obtain ⟨⟨i, hrun, -, hinput, -⟩, hresumes, hcheckpoints⟩ := frozenInv_of_run es hr
  have hcommand : ∀ m ∈ r.outbox, m.payload ∈ r.commands := fun m hm => List.mem_map_of_mem hm
  intro m hm
  have hm_input := hinput m.payload (hcommand m hm)
  refine ⟨?_, (hresumes _ (hcommand m hm)).type, fun k hk => ?_, fun m' hm' => ?_⟩
  · have hbase := hrun.baseCommit
    rw [← hm_input] at hbase
    exact hbase
  · obtain ⟨checkpoint, hcheckpoint⟩ := (hresumes _ (hcommand m hm)).checkpoint k hk
    obtain ⟨hid, hbase⟩ := hcheckpoints checkpoint (List.mem_of_getElem? hcheckpoint)
    exact ⟨checkpoint, hcheckpoint, hid, hbase⟩
  · exact RunCommand.eq_of_input (hm_input.trans (hinput m'.payload (hcommand m' hm')).symm)

/-- A snapshot run whose worker saved a checkpoint and was lost, while the
configuration of its repository changed. -/
def reconfiguredRun : List PlatformEvent := [
  .createRepository "repo" "/repo" smallSnapshot.config,
  .plane (.confirm (envAt 0) (smallConfirm "key") 0),
  .plane (claimAt 1000 0 1 1),
  .plane (.request (envAt 2000) (.saveCheckpoint 0 {
    attemptId := ⟨0, 0⟩, threadId := "0", baseCommit := "base", appliedPatchSha := none
    appliedPatch := none, completedToolCalls := [], usedTokens := 0, usedSeconds := 0 } (some 7)
    (checkAt 2000 2))),
  .configure "repo" { smallSnapshot.config with workdir := "other" },
  .plane (.request (envAt 60000) (.leaseExpired ⟨0, 0⟩ ⟨3, 3⟩))]

/-- Its second command resumes from the checkpoint and is otherwise the
first. -/
theorem commands_frozen_of_resumed :
    ∃ r : RunRows, (platform.run reconfiguredRun).plane.db.runs[0]? = some r ∧
      r.outbox.map (fun m => (m.payload.type, m.payload.checkpointId)) =
        [(.startRun, none), (.resumeRun, some 0)] ∧
      ∀ m ∈ r.outbox, m.payload.repo.baseCommit = r.run.baseCommit := by
  obtain ⟨r, hr⟩ : ∃ r : RunRows, (platform.run reconfiguredRun).plane.db.runs[0]? = some r := ⟨_, rfl⟩
  have hsent : ((platform.run reconfiguredRun).plane.db.runs[0]?).map (fun r =>
      r.outbox.map fun m => (m.payload.type, m.payload.checkpointId)) =
        some [(.startRun, none), (.resumeRun, some 0)] := by decide
  rw [hr, Option.map_some, Option.some.injEq] at hsent
  exact ⟨r, hr, hsent, fun m hm => (commands_frozen reconfiguredRun 0 r hr m hm).1⟩

end ControlPlane

end AgentReliability
