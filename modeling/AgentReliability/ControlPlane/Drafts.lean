import AgentReliability.ControlPlane.FrozenInput
import Mathlib.Logic.Embedding.Basic
/-!
# Where a task comes from

A repository is registered with a configuration, which is saved anew in
versions. A draft is checked against one of them, its commit is fetched and
pinned under a ref of its own, and then its row is inserted: four steps, with
other requests, new configurations and the garbage collection of git between
any two. A task is confirmed from a draft, whenever that is.

However they interleave, a task has the environment of a saved version, a
parent in its own repository that is older than it, and a commit that can
still be checked out at the path its commands name.
-/

namespace AgentReliability

namespace ControlPlane

/-! ## `repository.service.ts` -/

/-- The keys of a configuration that a draft does not change. -/
inductive EnvironmentKey where
  | runtime | preparation | image | dependencyFiles
  deriving DecidableEq, Repr

def EnvironmentKey.name : EnvironmentKey → String
  | runtime => "runtime"
  | preparation => "preparation"
  | image => "image"
  | dependencyFiles => "dependencyFiles"

/-- The keys in the order they are compared. -/
def environmentKeys : List EnvironmentKey := [.runtime, .preparation, .image, .dependencyFiles]

/-- What a configuration has under such a key. -/
inductive EnvironmentValue where
  | text (s : String)
  | files (paths : List String)
  deriving DecidableEq, Repr

/-- The fields of `RepositoryConfigSchema` that make the environment. -/
structure EnvironmentInput where
  runtime : String
  preparation : String
  image : String
  dependencyFiles : List String

def EnvironmentInput.value (e : EnvironmentInput) : EnvironmentKey → EnvironmentValue
  | .runtime => .text e.runtime
  | .preparation => .text e.preparation
  | .image => .text e.image
  | .dependencyFiles => .files e.dependencyFiles

/-- A `RepositoryConfigVersion` row, with what drafts are checked against. -/
structure ConfigVersion where
  version : ℕ
  environment : EnvironmentInput

/-- The versions of a `Project`; its path is in the platform. -/
structure Repository where
  id : String
  versions : List ConfigVersion

/-- The number of the next version: `(last?.version ?? 0) + 1`. -/
def Repository.nextVersion (r : Repository) : ℕ := (r.versions.getLast?.elim 0 (·.version)) + 1

def Repository.configure (r : Repository) (environment : EnvironmentInput) : Repository :=
  { r with versions := r.versions ++ [{ version := r.nextVersion, environment }] }

/-! ## `git-store.ts` -/

/-- A ref below `refs/arp/tasks` of the repository at a path. -/
structure TaskRef where
  path : String
  taskId : String
  sha : String
  deriving DecidableEq, Repr

/-! ## `task-draft.service.ts` -/

/-- What `create` is given, but for what the schema alone checks. -/
structure DraftInput where
  snapshot : TaskSnapshot
  configVersion : ℕ
  environment : EnvironmentInput

/-- A creation under way. -/
structure Creating where
  input : DraftInput
  fetched : Bool := false
  pin : Option String := none

/-- A `TaskDraft` row, with its id. -/
structure DraftRow where
  id : String
  input : DraftInput
  expiresAt : Time

/-- The platform with what comes before a task. -/
structure Intake where
  platform : Platform := {}
  repositories : List Repository := []
  /-- The commits that can be read in the repository at a path. -/
  commits : String → List String := fun _ => []
  refs : List TaskRef := []
  creating : List Creating := []
  drafts : List DraftRow := []

namespace Intake

variable (s : Intake)

/-- The environment of a version of a repository. -/
def environmentOf (id : String) (version : ℕ) : Option EnvironmentInput :=
  (s.repositories.find? (·.id = id)).bind fun r =>
    (r.versions.find? (·.version = version)).map (·.environment)

/-- `repo.repoPath`. -/
def pathOf (input : DraftInput) : Option String :=
  s.platform.repoPath? input.snapshot.repositoryId

/-- The repository of a task, none for a fixture's. -/
def repositoryOf (r : RunRows) : Option String := r.task.snapshot.map (·.repositoryId)

section

variable (taskId : RunId ↪ String) (digest : EnvironmentValue → String)

/-- The task with an id. -/
def taskOf (id : String) : Option RunRows :=
  (s.platform.plane.db.runs.zipIdx.find? fun entry => taskId entry.2 = id).map (·.1)

/-- A successor has its parent in the same repository. The default project of
the fixtures is no repository. -/
def checkParent (snapshot : TaskSnapshot) : Except ServiceError Unit :=
  match snapshot.parentTaskId with
  | none => .ok ()
  | some id => do
    let parent ← orThrow (s.taskOf taskId id) ServiceError.recordNotFound
    require (repositoryOf parent = some snapshot.repositoryId)
      (.badRequest "Successor must use the same repository")

/-- The environment of the input is the saved one. -/
def checkEnvironment (saved environment : EnvironmentInput) :
    List EnvironmentKey → Except ServiceError Unit
  | [] => .ok ()
  | key :: keys => do
    require (digest (saved.value key) = digest (environment.value key))
      (ServiceError.conflict s!"Environment {key.name} differs from saved configuration")
    checkEnvironment saved environment keys

/-- The checks of `create`, before the repository is touched. -/
def checkDraft (input : DraftInput) : Except ServiceError Unit := do
  s.checkParent taskId input.snapshot
  require (∀ source ∈ input.snapshot.source, source.headSha = input.snapshot.executionSha)
    (ServiceError.badRequest "PR tasks must execute the imported head SHA")
  require (s.pathOf input).isSome (ServiceError.notFound "Repository not found")
  let saved ← orThrow (s.environmentOf input.snapshot.repositoryId input.configVersion)
    (ServiceError.badRequest "Configuration version not found")
  checkEnvironment digest saved input.environment environmentKeys

/-- A creation goes on with its checks passed. -/
def check (input : DraftInput) : Intake :=
  match s.checkDraft taskId digest input with
  | .ok () => { s with creating := s.creating ++ [{ input }] }
  | .error _ => s

end

/-- Commits come to the repository at a path. -/
def receive (path : String) (shas : List String) : Intake :=
  { s with commits := fun p => if p = path then s.commits p ++ shas else s.commits p }

/-- `ensureCommit` for one commit: it is there, or the fetch brings it. -/
def ensureCommit (path sha : String) (fetches : Bool) : Option Intake :=
  if sha ∈ s.commits path then some s
  else if fetches then some (s.receive path [sha])
  else none

/-- A creation that failed is over. -/
def abandon (i : ℕ) : Intake := { s with creating := s.creating.eraseIdx i }

/-- `ensureCommit` of a creation. -/
def ensure (i : ℕ) (fetches : Bool) : Intake :=
  match s.creating[i]? with
  | none => s
  | some c =>
    match (s.pathOf c.input).bind fun path =>
        s.ensureCommit path c.input.snapshot.executionSha fetches with
    | none => s.abandon i
    | some s => { s with creating := s.creating.set i { c with fetched := true } }

/-- The ref is taken. -/
def idTaken (id : String) : Bool := s.refs.any (·.taskId = id)

/-- `pin`, under the fresh id of the draft. `update-ref` refuses a commit that
is not there. -/
def pinDraft (i : ℕ) (id : String) : Intake :=
  match s.creating[i]? with
  | none => s
  | some c =>
    if c.fetched = true ∧ c.pin = none ∧ s.idTaken id = false then
      match s.pathOf c.input with
      | none => s.abandon i
      | some path =>
        if c.input.snapshot.executionSha ∈ s.commits path then
          { s with
            refs := s.refs ++ [{ path, taskId := id, sha := c.input.snapshot.executionSha }]
            creating := s.creating.set i { c with pin := some id } }
        else s.abandon i
    else s

/-- The row is inserted, for a day. -/
def insertDraft (i : ℕ) (now : Time) : Intake :=
  match s.creating[i]? with
  | none => s
  | some c =>
    match c.pin with
    | none => s
    | some id =>
      { s with
        drafts := s.drafts ++ [{ id, input := c.input, expiresAt := now + 86400000 }]
        creating := s.creating.eraseIdx i }

/-- `git gc`: what a ref points to is kept. -/
def collect (path : String) (keep : String → Bool) : Intake :=
  { s with commits := fun p =>
      if p = path then (s.commits p).filter fun sha =>
        keep sha || s.refs.any fun ref => ref.path = path && ref.sha = sha
      else s.commits p }

end Intake

/-- What is asked of a confirmation, besides the draft. -/
structure ConfirmRequest where
  draftId : String
  revision : ℕ
  key : String
  testsConfirmed : Bool
  keepPinned : Bool
  currentHead : String
  /-- Whether a fetch brings the commit, where it has to be fetched. -/
  fetches : Bool

namespace Intake

variable (s : Intake)

/-- `confirm` of a draft: the platform is given the row that is stored. A
request that is refused before its commit is fetched is one with no fetch. -/
def confirmDraft (env : Env) (request : ConfirmRequest) (readAt : ℕ) : Intake :=
  match s.drafts.find? (·.id = request.draftId) with
  | none => s
  | some d =>
    let available := (s.pathOf d.input).bind fun path =>
      s.ensureCommit path d.input.snapshot.executionSha request.fetches
    let input : ConfirmInput := {
      draft := { snapshot := d.input.snapshot, revision := 1, expiresAt := d.expiresAt }
      revision := request.revision
      key := request.key
      testsConfirmed := request.testsConfirmed
      keepPinned := request.keepPinned
      currentHead := request.currentHead
      commitAvailable := available.isSome }
    let s := available.getD s
    { s with platform := s.platform.step (.plane (.confirm env input readAt)) }

/-- `RepositoryService.create`. -/
def createRepository (id repoPath : String) (config : RepositoryConfig)
    (environment : EnvironmentInput) : Intake :=
  if (s.platform.repoPath? id).isSome then s
  else { s with
    platform := s.platform.step (.createRepository id repoPath config)
    repositories := s.repositories ++ [{ id, versions := [{ version := 1, environment }] }] }

/-- `RepositoryService.configure`. -/
def configure (id : String) (config : RepositoryConfig) (environment : EnvironmentInput) :
    Intake :=
  { s with
    platform := s.platform.step (.configure id config)
    repositories := s.repositories.map fun r =>
      if r.id = id then r.configure environment else r }

/-- Any other event of the control plane. -/
def onPlane (e : Event) : Intake :=
  match e with
  | .confirm .. => s
  | e => { s with platform := s.platform.step (.plane e) }

end Intake

inductive IntakeEvent where
  | createRepository (id repoPath : String) (config : RepositoryConfig)
      (environment : EnvironmentInput)
  | configure (id : String) (config : RepositoryConfig) (environment : EnvironmentInput)
  | check (input : DraftInput)
  | ensure (creation : ℕ) (fetches : Bool)
  | pin (creation : ℕ) (id : String)
  | insert (creation : ℕ) (now : Time)
  | confirm (env : Env) (request : ConfirmRequest) (readAt : ℕ)
  | receive (path : String) (shas : List String)
  | collect (path : String) (keep : String → Bool)
  | plane (e : Event)

section

variable (taskId : RunId ↪ String) (digest : EnvironmentValue → String)

def Intake.step (s : Intake) : IntakeEvent → Intake
  | .createRepository id repoPath config environment =>
    s.createRepository id repoPath config environment
  | .configure id config environment => s.configure id config environment
  | .check input => s.check taskId digest input
  | .ensure creation fetches => s.ensure creation fetches
  | .pin creation id => s.pinDraft creation id
  | .insert creation now => s.insertDraft creation now
  | .confirm env request readAt => s.confirmDraft env request readAt
  | .receive path shas => s.receive path shas
  | .collect path keep => s.collect path keep
  | .plane e => s.onPlane e

/-- The platform with its repositories, the drafts and git, started empty. -/
def intake : Machine Intake IntakeEvent where
  init := {}
  step := Intake.step taskId digest

end

/-! ## The snapshots of the tasks -/

theorem createTask_noSnapshot {ctx : Context} {runs : List RunRows} {input : CreateTaskInput}
    {r : RunRows} (h : createTask ctx runs input = .ok r) : r.task.snapshot = none := by
  simp only [createTask, bind_eq_ok] at h
  obtain ⟨input', -, fixture, -, baseCommit, -, -, -, queued, hqueued, command, -, hrun⟩ := h
  have hcore := (transitionRun_core hrun).2
  rw [RunRows.core_send, (transitionTask_core hqueued).2] at hcore
  exact congrArg RunCore.snapshot hcore

section

variable {s : State}

/-- A task keeps its snapshot. -/
theorem snapshot_kept (hs : Sound s) (e : Event) {id : RunId} {r : RunRows}
    (hr : s.db.runs[id]? = some r) :
    ∃ r', (step s e).db.runs[id]? = some r' ∧ r'.task.snapshot = r.task.snapshot := by
  obtain ⟨r', hr', hsame⟩ := sameInput_step hs e hr
  refine ⟨r', hr', ?_⟩
  rw [hsame.task]

/-- What a new task may have for a snapshot. -/
def NewSnapshot (e : Event) (snapshot : Option TaskSnapshot) : Prop :=
  snapshot = none ∨
    ∃ env input readAt, e = .confirm env input readAt ∧ snapshot = some input.draft.snapshot

/-- **A snapshot comes from a confirmed draft**: of the tasks there are after
an event, the new one alone may have another than before. -/
theorem snapshot_step (hs : Sound s) (e : Event) {id : RunId} {r' : RunRows}
    (hr' : (step s e).db.runs[id]? = some r') :
    (∃ r, s.db.runs[id]? = some r ∧ r'.task.snapshot = r.task.snapshot) ∨
      (id = s.db.runs.length ∧ NewSnapshot e r'.task.snapshot) := by
  rcases Nat.lt_or_ge id s.db.runs.length with hlt | hge
  · obtain ⟨r'', hr'', hsnapshot⟩ := snapshot_kept hs e (List.getElem?_eq_getElem hlt)
    rw [hr'] at hr''
    rw [Option.some.inj hr'']
    exact .inl ⟨_, List.getElem?_eq_getElem hlt, hsnapshot⟩
  · refine .inr ?_
    have hlen : ∀ db : Database, db.runs.length = s.db.runs.length → db.runs[id]? ≠ some r' := by
      intro db hdb h
      have := (List.getElem?_eq_some_iff.mp h).1
      omega
    have hnew : ∀ {r : RunRows}, (s.db.runs ++ [r])[id]? = some r' →
        id = s.db.runs.length ∧ r' = r := by
      intro r h
      rcases getElem?_append_one h with hold | hnew
      · exact absurd hold (hlen s.db rfl)
      · exact hnew
    rcases db_step s e with ⟨db, hc, hdb⟩ | hdb
    · rw [hdb] at hr'
      cases e with
      | createTask env input =>
        obtain ⟨r, hr, rfl⟩ := Option.map_eq_some_iff.mp hc
        obtain ⟨hid, rfl⟩ := hnew hr'
        exact ⟨hid, .inl (createTask_noSnapshot (toOption_eq_some.mp hr))⟩
      | confirm env input readAt =>
        obtain ⟨r, hr, rfl⟩ := Option.map_eq_some_iff.mp hc
        obtain ⟨hid, rfl⟩ := hnew hr'
        rw [(confirmed_some hr).1]
        exact ⟨hid, .inr ⟨env, input, readAt, rfl, rfl⟩⟩
      | request env req =>
        obtain ⟨tx, r, r₁, -, -, -, rfl⟩ := Request.commit_eq_some hc
        exact absurd hr' (hlen _ (List.length_set ..))
      | environment env j token fingerprint imageId log =>
        obtain ⟨db', hdb', rfl⟩ := Option.map_eq_some_iff.mp hc
        rw [toOption_eq_some] at hdb'
        simp only [Database.transact, bind_eq_ok, orThrow_eq_ok, pure_eq_ok] at hdb'
        obtain ⟨r, -, r₁, -, rfl⟩ := hdb'
        exact absurd hr' (hlen _ (List.length_set ..))
      | publish => exact absurd hc (by simp [Event.commit?])
    · rw [hdb] at hr'
      exact absurd hr' (hlen _ rfl)

end

/-! ## What stays as it is -/

/-- The state some events later, as far as a draft is concerned. -/
structure Intake.Later (s s' : Intake) : Prop where
  paths : ∀ id path, s.platform.repoPath? id = some path → s'.platform.repoPath? id = some path
  versions : ∀ id version e, s.environmentOf id version = some e →
    s'.environmentOf id version = some e
  tasks : ∀ (id : RunId) (r : RunRows), s.platform.plane.db.runs[id]? = some r →
    ∃ r', s'.platform.plane.db.runs[id]? = some r' ∧ r'.task.snapshot = r.task.snapshot
  refs : ∀ ref ∈ s.refs, ref ∈ s'.refs

/-- Only what a draft does not depend on has changed. -/
theorem Intake.Later.of_eq {s s' : Intake} (hplatform : s'.platform = s.platform)
    (hrepositories : s'.repositories = s.repositories) (hrefs : ∀ ref ∈ s.refs, ref ∈ s'.refs) :
    Intake.Later s s' where
  paths := by rw [hplatform]; exact fun _ _ h => h
  versions := by unfold Intake.environmentOf; rw [hrepositories]; exact fun _ _ _ h => h
  tasks := by rw [hplatform]; exact fun _ r h => ⟨r, h, rfl⟩
  refs := hrefs

theorem snapshot_kept_platform {p : Platform} (hs : Sound p.plane) (e : PlatformEvent) {id : RunId}
    {r : RunRows} (hr : p.plane.db.runs[id]? = some r) :
    ∃ r', (p.step e).plane.db.runs[id]? = some r' ∧ r'.task.snapshot = r.task.snapshot := by
  cases e with
  | createRepository id' repoPath config =>
    change ∃ r', (p.createRepository id' repoPath config).plane.db.runs[id]? = some r' ∧ _
    unfold Platform.createRepository
    split <;> exact ⟨r, hr, rfl⟩
  | configure => exact ⟨r, hr, rfl⟩
  | plane e =>
    change ∃ r', (p.onPlane e).plane.db.runs[id]? = some r' ∧ _
    unfold Platform.onPlane
    split
    · exact snapshot_kept hs _ hr
    · exact ⟨r, hr, rfl⟩

/-- The platform has moved by one of its events. -/
theorem Intake.Later.of_platform {s s' : Intake} (hs : Sound s.platform.plane) (e : PlatformEvent)
    (hplatform : s'.platform = s.platform.step e)
    (hversions : ∀ id version environment, s.environmentOf id version = some environment →
      s'.environmentOf id version = some environment)
    (hrefs : ∀ ref ∈ s.refs, ref ∈ s'.refs) : Intake.Later s s' where
  paths id path h := by rw [hplatform]; exact repoPath?_step h e
  versions := hversions
  tasks id r h := by rw [hplatform]; exact snapshot_kept_platform hs e h
  refs := hrefs

/-- A version that was found is found among more. -/
theorem Repository.find_configure {r : Repository} (environment : EnvironmentInput) {version : ℕ}
    {v : ConfigVersion} (h : r.versions.find? (·.version = version) = some v) :
    (r.configure environment).versions.find? (·.version = version) = some v := by
  rw [Repository.configure, List.find?_append, h]
  rfl

theorem environmentOf_createRepository {s : Intake} {id : String} {version : ℕ}
    {e : EnvironmentInput} (h : s.environmentOf id version = some e) (more : List Repository) :
    ((s.repositories ++ more).find? (·.id = id)).bind (fun r =>
      (r.versions.find? (·.version = version)).map (·.environment)) = some e := by
  obtain ⟨r, hr, he⟩ := Option.bind_eq_some_iff.mp h
  rw [List.find?_append, hr]
  exact he

theorem environmentOf_configure {s : Intake} {id : String} {version : ℕ} {e : EnvironmentInput}
    (h : s.environmentOf id version = some e) (id' : String) (environment : EnvironmentInput) :
    ((s.repositories.map fun r => if r.id = id' then r.configure environment else r).find?
      (·.id = id)).bind (fun r =>
        (r.versions.find? (·.version = version)).map (·.environment)) = some e := by
  obtain ⟨r, hr, he⟩ := Option.bind_eq_some_iff.mp h
  obtain ⟨v, hv, rfl⟩ := Option.map_eq_some_iff.mp he
  have hid : ((fun r : Repository => decide (r.id = id)) ∘ fun r =>
      if r.id = id' then r.configure environment else r) = fun r => decide (r.id = id) := by
    funext r
    simp only [Function.comp_apply]
    split <;> rfl
  rw [List.find?_map, hid, hr, Option.map_some, Option.bind_some]
  split
  · rw [Repository.find_configure environment hv]
    rfl
  · rw [hv]
    rfl

/-! ## Where a draft comes from -/

section

variable (taskId : RunId ↪ String) (digest : EnvironmentValue → String)

/-- **The checks of a draft hold**: its repository has a path, its environment
is that of a saved version, its parent is a task of the repository, and a pull
request is worked on at its head. -/
structure Checked (s : Intake) (input : DraftInput) : Prop where
  located : ∃ path, s.pathOf input = some path
  version : ∃ saved, s.environmentOf input.snapshot.repositoryId input.configVersion = some saved ∧
    ∀ key ∈ environmentKeys, digest (saved.value key) = digest (input.environment.value key)
  parent : ∀ id ∈ input.snapshot.parentTaskId, ∃ (j : RunId) (r : RunRows), taskId j = id ∧
    s.platform.plane.db.runs[j]? = some r ∧
    Intake.repositoryOf r = some input.snapshot.repositoryId
  source : ∀ source ∈ input.snapshot.source, source.headSha = input.snapshot.executionSha

/-- The commit of a draft is pinned at the path of its repository. -/
def Pinned (s : Intake) (input : DraftInput) (id : String) : Prop :=
  ∃ path, s.pathOf input = some path ∧
    { path, taskId := id, sha := input.snapshot.executionSha } ∈ s.refs

/-- A task is that of a draft, and younger than its parent. -/
def Drafted (s : Intake) (id : RunId) (snapshot : TaskSnapshot) : Prop :=
  ∃ d ∈ s.drafts, d.input.snapshot = snapshot ∧
    ∀ parent ∈ snapshot.parentTaskId, ∃ j < id, taskId j = parent

variable {taskId digest} {s s' : Intake} {input : DraftInput}

theorem Checked.later (h : Checked taskId digest s input) (hlater : Intake.Later s s') :
    Checked taskId digest s' input where
  located := by
    obtain ⟨path, hpath⟩ := h.located
    exact ⟨path, hlater.paths _ _ hpath⟩
  version := by
    obtain ⟨saved, hsaved, hsame⟩ := h.version
    exact ⟨saved, hlater.versions _ _ _ hsaved, hsame⟩
  parent id hid := by
    obtain ⟨j, r, hj, hr, hrepository⟩ := h.parent id hid
    obtain ⟨r', hr', hsnapshot⟩ := hlater.tasks j r hr
    refine ⟨j, r', hj, hr', ?_⟩
    rw [Intake.repositoryOf, hsnapshot]
    exact hrepository
  source := h.source

theorem Pinned.later {id : String} (h : Pinned s input id) (hlater : Intake.Later s s') :
    Pinned s' input id := by
  obtain ⟨path, hpath, href⟩ := h
  exact ⟨path, hlater.paths _ _ hpath, hlater.refs _ href⟩

theorem checkEnvironment_eq_ok {saved environment : EnvironmentInput} {keys : List EnvironmentKey}
    (h : Intake.checkEnvironment digest saved environment keys = .ok ()) :
    ∀ key ∈ keys, digest (saved.value key) = digest (environment.value key) := by
  induction keys with
  | nil => exact fun _ h => absurd h List.not_mem_nil
  | cons key keys ih =>
    simp only [Intake.checkEnvironment, bind_eq_ok, require_eq_ok] at h
    obtain ⟨_, hkey, hkeys⟩ := h
    intro other hother
    rcases List.mem_cons.mp hother with rfl | hother
    · exact hkey
    · exact ih hkeys other hother

/-- **What `create` checks holds of its input.** -/
theorem checked_of_checkDraft (h : s.checkDraft taskId digest input = .ok ()) :
    Checked taskId digest s input := by
  simp only [Intake.checkDraft, bind_eq_ok, require_eq_ok, orThrow_eq_ok] at h
  obtain ⟨_, hparent, _, hsource, _, hpath, saved, hsaved, hsame⟩ := h
  refine ⟨Option.isSome_iff_exists.mp hpath, ⟨saved, hsaved, checkEnvironment_eq_ok hsame⟩, ?_,
    hsource⟩
  intro id hid
  unfold Intake.checkParent at hparent
  rw [Option.mem_def.mp hid] at hparent
  simp only [bind_eq_ok, require_eq_ok, orThrow_eq_ok] at hparent
  obtain ⟨r, hr, hrepository⟩ := hparent
  obtain ⟨⟨r', j⟩, hfound, rfl⟩ := Option.map_eq_some_iff.mp hr
  have hj := List.find?_some hfound
  simp only [decide_eq_true_eq] at hj
  have hmem := List.mem_of_find?_eq_some hfound
  exact ⟨j, r', hj, List.mem_zipIdx_iff_getElem?.mp hmem, hrepository⟩

/-! ## The invariant -/

/-- What holds of the drafts, their refs and their tasks at all times. -/
structure IntakeInv (taskId : RunId ↪ String) (digest : EnvironmentValue → String)
    (s : Intake) : Prop where
  reached : ∃ es, platform.run es = s.platform
  refs : ∀ ref ∈ s.refs, ref.sha ∈ s.commits ref.path
  creating : ∀ c ∈ s.creating, Checked taskId digest s c.input ∧ ∀ id ∈ c.pin, Pinned s c.input id
  drafts : ∀ d ∈ s.drafts, Checked taskId digest s d.input ∧ Pinned s d.input d.id
  tasks : ∀ (id : RunId) (r : RunRows) (snapshot : TaskSnapshot),
    s.platform.plane.db.runs[id]? = some r → r.task.snapshot = some snapshot →
    Drafted taskId s id snapshot

theorem IntakeInv.sound (h : IntakeInv taskId digest s) : Sound s.platform.plane := by
  obtain ⟨es, hes⟩ := h.reached
  rw [← hes]
  exact sound_of_reachable (reachable_plane es)

/-- The invariant goes with what a draft depends on, where the creations, the
drafts and the tasks that are new are as they should be. -/
theorem IntakeInv.grow (h : IntakeInv taskId digest s) (hlater : Intake.Later s s')
    (hreached : ∃ es, platform.run es = s'.platform)
    (hrefs : ∀ ref ∈ s'.refs, ref.sha ∈ s'.commits ref.path)
    (hcreating : ∀ c ∈ s'.creating, c ∈ s.creating ∨
      (Checked taskId digest s' c.input ∧ ∀ id ∈ c.pin, Pinned s' c.input id))
    (hold : s.drafts ⊆ s'.drafts)
    (hdrafts : ∀ d ∈ s'.drafts, d ∈ s.drafts ∨
      (Checked taskId digest s' d.input ∧ Pinned s' d.input d.id))
    (htasks : ∀ (id : RunId) (r' : RunRows) (snapshot : TaskSnapshot),
      s'.platform.plane.db.runs[id]? = some r' → r'.task.snapshot = some snapshot →
      (∃ r, s.platform.plane.db.runs[id]? = some r ∧ r.task.snapshot = some snapshot) ∨
        Drafted taskId s' id snapshot) : IntakeInv taskId digest s' where
  reached := hreached
  refs := hrefs
  creating c hc := by
    rcases hcreating c hc with hc | hc
    · obtain ⟨hchecked, hpinned⟩ := h.creating c hc
      exact ⟨hchecked.later hlater, fun id hid => (hpinned id hid).later hlater⟩
    · exact hc
  drafts d hd := by
    rcases hdrafts d hd with hd | hd
    · obtain ⟨hchecked, hpinned⟩ := h.drafts d hd
      exact ⟨hchecked.later hlater, hpinned.later hlater⟩
    · exact hd
  tasks id r' snapshot hr' hsnapshot := by
    rcases htasks id r' snapshot hr' hsnapshot with ⟨r, hr, hsnap⟩ | hnew
    · obtain ⟨d, hd, hsame, hparent⟩ := h.tasks id r snapshot hr hsnap
      exact ⟨d, hold hd, hsame, hparent⟩
    · exact hnew

/-- An event that leaves the platform and the repositories as they are. -/
theorem IntakeInv.quiet (h : IntakeInv taskId digest s) (hplatform : s'.platform = s.platform)
    (hrepositories : s'.repositories = s.repositories) (hkept : ∀ ref ∈ s.refs, ref ∈ s'.refs)
    (hrefs : ∀ ref ∈ s'.refs, ref.sha ∈ s'.commits ref.path)
    (hcreating : ∀ c ∈ s'.creating, c ∈ s.creating ∨
      (Checked taskId digest s' c.input ∧ ∀ id ∈ c.pin, Pinned s' c.input id))
    (hold : s.drafts ⊆ s'.drafts)
    (hdrafts : ∀ d ∈ s'.drafts, d ∈ s.drafts ∨
      (Checked taskId digest s' d.input ∧ Pinned s' d.input d.id)) :
    IntakeInv taskId digest s' := by
  refine h.grow (.of_eq hplatform hrepositories hkept) ?_ hrefs hcreating hold hdrafts ?_
  · rw [hplatform]
    exact h.reached
  · intro id r snapshot hr hsnapshot
    rw [hplatform] at hr
    exact .inl ⟨r, hr, hsnapshot⟩

/-- A snapshot there is after an event of the platform was there before, or is
that of a draft which the event confirms. -/
theorem snapshot_step_platform {p : Platform} (hs : Sound p.plane) (e : PlatformEvent) {id : RunId}
    {r' : RunRows} {snapshot : TaskSnapshot} (hr' : (p.step e).plane.db.runs[id]? = some r')
    (hsnapshot : r'.task.snapshot = some snapshot) :
    (∃ r, p.plane.db.runs[id]? = some r ∧ r.task.snapshot = some snapshot) ∨
      (id = p.plane.db.runs.length ∧ ∃ env input readAt,
        e = .plane (.confirm env input readAt) ∧ snapshot = input.draft.snapshot) := by
  have hsame : (p.step e).plane = p.plane → ∃ r, p.plane.db.runs[id]? = some r ∧
      r.task.snapshot = some snapshot := by
    intro h
    rw [h] at hr'
    exact ⟨r', hr', hsnapshot⟩
  cases e with
  | createRepository id' repoPath config =>
    refine .inl (hsame ?_)
    change (p.createRepository id' repoPath config).plane = _
    unfold Platform.createRepository
    split <;> rfl
  | configure => exact .inl (hsame rfl)
  | plane e =>
    change (p.onPlane e).plane.db.runs[id]? = some r' at hr'
    cases he : e.located p with
    | none =>
      refine .inl (hsame ?_)
      change (p.onPlane e).plane = _
      rw [Platform.onPlane, he]
    | some e' =>
      rw [Platform.onPlane, he] at hr'
      rcases snapshot_step hs e' hr' with ⟨r, hr, hsnap⟩ | ⟨hid, hnone | hconfirm⟩
      · exact .inl ⟨r, hr, hsnap ▸ hsnapshot⟩
      · rw [hnone] at hsnapshot
        exact absurd hsnapshot (by simp)
      · obtain ⟨env, input, readAt, rfl, hinput⟩ := hconfirm
        rw [hsnapshot] at hinput
        refine .inr ⟨hid, ?_⟩
        -- A confirmation is one of its own draft, at the path of its repository.
        cases e with
        | confirm env' input' readAt' =>
          obtain ⟨path, -, heq⟩ := Option.map_eq_some_iff.mp he
          obtain ⟨-, rfl, -⟩ := Event.confirm.inj heq
          exact ⟨env', input', readAt', rfl, Option.some.inj hinput⟩
        | _ => exact absurd (Option.some.inj he) (by simp)

/-- An event of the platform, with fetches at most beside it. -/
theorem IntakeInv.move (h : IntakeInv taskId digest s) (e : PlatformEvent)
    (hplatform : s'.platform = s.platform.step e)
    (hversions : ∀ id version environment, s.environmentOf id version = some environment →
      s'.environmentOf id version = some environment)
    (hrefs : s'.refs = s.refs) (hcommits : ∀ path, s.commits path ⊆ s'.commits path)
    (hcreating : s'.creating = s.creating) (hdrafts : s'.drafts = s.drafts)
    (hconfirmed : ∀ env input readAt, e = .plane (.confirm env input readAt) →
      ∃ d ∈ s.drafts, d.input.snapshot = input.draft.snapshot) :
    IntakeInv taskId digest s' := by
  have hs := h.sound
  have hlater : Intake.Later s s' := .of_platform hs e hplatform hversions (by rw [hrefs]; simp)
  refine h.grow hlater ?_ ?_ ?_ ?_ ?_ ?_
  · obtain ⟨es, hes⟩ := h.reached
    exact ⟨es ++ [e], by rw [platform.run_concat, hes, hplatform]; rfl⟩
  · intro ref href
    rw [hrefs] at href
    exact hcommits _ (h.refs ref href)
  · exact fun c hc => .inl (hcreating ▸ hc)
  · rw [hdrafts]
    exact List.Subset.refl _
  · exact fun d hd => .inl (hdrafts ▸ hd)
  · intro id r' snapshot hr' hsnapshot
    rw [hplatform] at hr'
    rcases snapshot_step_platform hs e hr' hsnapshot with hold | ⟨hid, env, input, readAt, he, hsnap⟩
    · exact .inl hold
    · refine .inr ?_
      obtain ⟨d, hd, hinput⟩ := hconfirmed env input readAt he
      rw [← hsnap] at hinput
      refine ⟨d, hdrafts ▸ hd, hinput, fun parent hparent => ?_⟩
      -- The draft was checked, so its parent is among the tasks there were.
      rw [← hinput] at hparent
      obtain ⟨j, r, hj, hr, -⟩ := (h.drafts d hd).1.parent parent hparent
      have hlt := (List.getElem?_eq_some_iff.mp hr).1
      exact ⟨j, hid ▸ hlt, hj⟩

/-! ## Every step keeps it -/

/-- **A commit that is ensured is there**, with every commit there was, and
nothing else has changed. -/
theorem ensureCommit_spec {path sha : String} {fetches : Bool}
    (h : s.ensureCommit path sha fetches = some s') :
    ∃ commits, s' = { s with commits } ∧ (∀ p, s.commits p ⊆ commits p) ∧ sha ∈ commits path := by
  unfold Intake.ensureCommit at h
  split at h
  · rename_i hmem
    obtain rfl := Option.some.inj h
    exact ⟨s.commits, rfl, fun _ => List.Subset.refl _, hmem⟩
  · split at h
    · obtain rfl := Option.some.inj h
      refine ⟨_, rfl, fun p => ?_, ?_⟩
      · split
        · exact List.subset_append_left _ _
        · exact List.Subset.refl _
      · rw [if_pos rfl]
        exact List.mem_append_right _ List.mem_cons_self
    · exact absurd h (by simp)

theorem IntakeInv.receive (h : IntakeInv taskId digest s) (path : String) (shas : List String) :
    IntakeInv taskId digest (s.receive path shas) := by
  refine h.quiet rfl rfl (fun _ h => h) ?_ (fun _ h => .inl h) (List.Subset.refl _)
    (fun _ h => .inl h)
  intro ref href
  have hmem := h.refs ref href
  change ref.sha ∈ if ref.path = path then _ else _
  split
  · exact List.mem_append_left _ hmem
  · exact hmem

/-- The garbage collection leaves what a ref points to. -/
theorem IntakeInv.collect (h : IntakeInv taskId digest s) (path : String) (keep : String → Bool) :
    IntakeInv taskId digest (s.collect path keep) := by
  refine h.quiet rfl rfl (fun _ h => h) ?_ (fun _ h => .inl h) (List.Subset.refl _)
    (fun _ h => .inl h)
  intro ref href
  have hmem := h.refs ref href
  change ref.sha ∈ if ref.path = path then _ else _
  split
  · rename_i hpath
    refine List.mem_filter.mpr ⟨hmem, ?_⟩
    have hany : (s.refs.any fun other => other.path = path && other.sha = ref.sha) = true :=
      List.any_eq_true.mpr ⟨ref, href, by simp [hpath]⟩
    rw [hany, Bool.or_true]
  · exact hmem

theorem IntakeInv.check (h : IntakeInv taskId digest s) (input : DraftInput) :
    IntakeInv taskId digest (s.check taskId digest input) := by
  unfold Intake.check
  split
  · rename_i hcheck
    refine h.quiet rfl rfl (fun _ h => h) h.refs ?_ (List.Subset.refl _) (fun _ h => .inl h)
    intro c hc
    rcases List.mem_append.mp hc with hc | hc
    · exact .inl hc
    · obtain rfl := List.mem_singleton.mp hc
      have hlater : Intake.Later s { s with creating := s.creating ++ [{ input }] } :=
        .of_eq rfl rfl fun _ h => h
      exact .inr ⟨(checked_of_checkDraft hcheck).later hlater, by simp⟩
  · exact h

theorem IntakeInv.abandon (h : IntakeInv taskId digest s) (i : ℕ) :
    IntakeInv taskId digest (s.abandon i) :=
  h.quiet rfl rfl (fun _ h => h) h.refs (fun _ hc => .inl (List.mem_of_mem_eraseIdx hc))
    (List.Subset.refl _) (fun _ h => .inl h)

theorem IntakeInv.ensure (h : IntakeInv taskId digest s) (i : ℕ) (fetches : Bool) :
    IntakeInv taskId digest (s.ensure i fetches) := by
  unfold Intake.ensure
  split
  · exact h
  · rename_i c hc
    obtain ⟨hchecked, hpinned⟩ := h.creating c (List.mem_of_getElem? hc)
    split
    · exact h.abandon i
    · rename_i s₁ hs₁
      obtain ⟨path, -, hensured⟩ := Option.bind_eq_some_iff.mp hs₁
      obtain ⟨commits, rfl, hgrow, -⟩ := ensureCommit_spec hensured
      have hlater : Intake.Later s { s with
          commits, creating := s.creating.set i { c with fetched := true } } :=
        .of_eq rfl rfl fun _ h => h
      refine h.quiet rfl rfl (fun _ h => h) (fun ref href => hgrow _ (h.refs ref href)) ?_
        (List.Subset.refl _) (fun _ h => .inl h)
      intro c' hc'
      rcases List.mem_or_eq_of_mem_set hc' with hc' | rfl
      · exact .inl hc'
      · exact .inr ⟨hchecked.later hlater, fun id hid => (hpinned id hid).later hlater⟩

theorem IntakeInv.pinDraft (h : IntakeInv taskId digest s) (i : ℕ) (id : String) :
    IntakeInv taskId digest (s.pinDraft i id) := by
  unfold Intake.pinDraft
  split
  · exact h
  · rename_i c hc
    split
    · split
      · exact h.abandon i
      · rename_i path hpath
        split
        · rename_i hmem
          have hchecked := (h.creating c (List.mem_of_getElem? hc)).1
          refine h.quiet rfl rfl (fun _ h => List.mem_append_left _ h) ?_ ?_
            (List.Subset.refl _) (fun _ h => .inl h)
          · intro ref href
            rcases List.mem_append.mp href with href | href
            · exact h.refs ref href
            · obtain rfl := List.mem_singleton.mp href
              exact hmem
          · intro c' hc'
            rcases List.mem_or_eq_of_mem_set hc' with hc' | rfl
            · exact .inl hc'
            · refine .inr ⟨hchecked.later (.of_eq rfl rfl fun _ h => List.mem_append_left _ h), ?_⟩
              intro id' hid'
              obtain rfl := Option.some.inj hid'
              exact ⟨path, hpath, List.mem_append_right _ List.mem_cons_self⟩
        · exact h.abandon i
    · exact h

theorem IntakeInv.insertDraft (h : IntakeInv taskId digest s) (i : ℕ) (now : Time) :
    IntakeInv taskId digest (s.insertDraft i now) := by
  unfold Intake.insertDraft
  split
  · exact h
  · rename_i c hc
    split
    · exact h
    · rename_i id hid
      obtain ⟨hchecked, hpinned⟩ := h.creating c (List.mem_of_getElem? hc)
      have hlater : Intake.Later s { s with
          drafts := s.drafts ++ [{ id, input := c.input, expiresAt := now + 86400000 }]
          creating := s.creating.eraseIdx i } := .of_eq rfl rfl fun _ h => h
      refine h.quiet rfl rfl (fun _ h => h) h.refs
        (fun _ hc => .inl (List.mem_of_mem_eraseIdx hc)) (List.subset_append_left _ _) ?_
      intro d hd
      rcases List.mem_append.mp hd with hd | hd
      · exact .inl hd
      · obtain rfl := List.mem_singleton.mp hd
        exact .inr ⟨hchecked.later hlater, (hpinned id hid).later hlater⟩

theorem IntakeInv.confirmDraft (h : IntakeInv taskId digest s) (env : Env)
    (request : ConfirmRequest) (readAt : ℕ) :
    IntakeInv taskId digest (s.confirmDraft env request readAt) := by
  unfold Intake.confirmDraft
  split
  · exact h
  · rename_i d hd
    -- The repository is as it was, but for a fetch.
    have hrest : ∃ commits, ((s.pathOf d.input).bind fun path =>
        s.ensureCommit path d.input.snapshot.executionSha request.fetches).getD s =
          { s with commits } ∧ ∀ p, s.commits p ⊆ commits p := by
      cases havailable : (s.pathOf d.input).bind fun path =>
          s.ensureCommit path d.input.snapshot.executionSha request.fetches with
      | none => exact ⟨s.commits, rfl, fun _ => List.Subset.refl _⟩
      | some s₁ =>
        obtain ⟨path, -, hensured⟩ := Option.bind_eq_some_iff.mp havailable
        obtain ⟨commits, rfl, hgrow, -⟩ := ensureCommit_spec hensured
        exact ⟨commits, rfl, hgrow⟩
    obtain ⟨commits, heq, hgrow⟩ := hrest
    simp only [heq]
    refine h.move (.plane (.confirm env _ readAt)) rfl (fun _ _ _ h => h) rfl hgrow rfl rfl ?_
    intro env' input readAt' he
    obtain ⟨-, rfl, -⟩ := Event.confirm.inj (PlatformEvent.plane.inj he)
    exact ⟨d, List.mem_of_find?_eq_some hd, rfl⟩

theorem IntakeInv.createRepository (h : IntakeInv taskId digest s) (id repoPath : String)
    (config : RepositoryConfig) (environment : EnvironmentInput) :
    IntakeInv taskId digest (s.createRepository id repoPath config environment) := by
  unfold Intake.createRepository
  split
  · exact h
  · exact h.move (.createRepository id repoPath config) rfl
      (fun _ _ _ hversion => environmentOf_createRepository hversion _) rfl
      (fun _ => List.Subset.refl _) rfl rfl (by simp)

theorem IntakeInv.onPlane (h : IntakeInv taskId digest s) (e : Event) :
    IntakeInv taskId digest (s.onPlane e) := by
  unfold Intake.onPlane
  split
  · exact h
  · rename_i hnot
    refine h.move (.plane e) rfl (fun _ _ _ h => h) rfl (fun _ => List.Subset.refl _) rfl rfl ?_
    intro env input readAt he
    exact absurd (PlatformEvent.plane.inj he) (hnot env input readAt)

theorem IntakeInv.step (h : IntakeInv taskId digest s) (e : IntakeEvent) :
    IntakeInv taskId digest (s.step taskId digest e) := by
  cases e with
  | createRepository id repoPath config environment =>
    exact h.createRepository id repoPath config environment
  | configure id config environment =>
    exact h.move (.configure id config) rfl
      (fun _ _ _ hversion => environmentOf_configure hversion id environment) rfl
      (fun _ => List.Subset.refl _) rfl rfl (by simp)
  | check input => exact h.check input
  | ensure creation fetches => exact h.ensure creation fetches
  | pin creation id => exact h.pinDraft creation id
  | insert creation now => exact h.insertDraft creation now
  | confirm env request readAt => exact h.confirmDraft env request readAt
  | receive path shas => exact h.receive path shas
  | collect path keep => exact h.collect path keep
  | plane e => exact h.onPlane e

theorem intakeInv_run (es : List IntakeEvent) :
    IntakeInv taskId digest ((intake taskId digest).run es) := by
  refine (intake taskId digest).invariant ?_ (fun _ e h => h.step e)
    ((intake taskId digest).reachable_run es)
  exact {
    reached := ⟨[], rfl⟩
    refs := by simp [intake]
    creating := by simp [intake]
    drafts := by simp [intake]
    tasks := by simp [intake] }

end

/-! ## The tasks of a run -/

/-- **A task stays what it was drafted as.** Whatever happens between the
checks of a draft, its pin, its row and its confirmation, and whenever git
collects: the commit of a task can be checked out at the path that all its
commands name, it comes from a draft whose environment is that of a saved
version of its repository, its parent is an older task of the same repository,
and a pull request is worked on at the head that was imported. -/
theorem tasks_drafted (taskId : RunId ↪ String) (digest : EnvironmentValue → String)
    (es : List IntakeEvent) (s : Intake) (hs : (intake taskId digest).run es = s) (id : RunId)
    (r : RunRows) (hr : s.platform.plane.db.runs[id]? = some r) (snapshot : TaskSnapshot)
    (hsnapshot : r.task.snapshot = some snapshot) :
    (∃ path, s.platform.repoPath? snapshot.repositoryId = some path ∧
      snapshot.executionSha ∈ s.commits path ∧
      ∀ m ∈ r.outbox, m.payload.repo = { path, baseCommit := snapshot.executionSha }) ∧
    (∃ d ∈ s.drafts, d.input.snapshot = snapshot ∧ ∃ saved,
      s.environmentOf snapshot.repositoryId d.input.configVersion = some saved ∧
      ∀ key ∈ environmentKeys,
        digest (saved.value key) = digest (d.input.environment.value key)) ∧
    (∀ parent ∈ snapshot.parentTaskId, ∃ (j : RunId) (r' : RunRows), j < id ∧ taskId j = parent ∧
      s.platform.plane.db.runs[j]? = some r' ∧
      Intake.repositoryOf r' = some snapshot.repositoryId) ∧
    ∀ source ∈ snapshot.source, source.headSha = snapshot.executionSha := by
  have hinv : IntakeInv taskId digest s := hs ▸ intakeInv_run es
  obtain ⟨d, hd, rfl, holder⟩ := hinv.tasks id r snapshot hr hsnapshot
  obtain ⟨hchecked, path, hpath, href⟩ := hinv.drafts d hd
  refine ⟨⟨path, hpath, hinv.refs _ href, fun m hm => ?_⟩, ⟨d, hd, rfl, hchecked.version⟩, ?_,
    hchecked.source⟩
  · -- All commands have the input of the first, which was built from the snapshot.
    obtain ⟨ps, hps⟩ := hinv.reached
    rw [← hps] at hr
    obtain ⟨i, -, -, hinput, hlocated⟩ := (frozenInv_of_run ps hr).input
    obtain ⟨path', hpath', rfl⟩ := hlocated d.input.snapshot hsnapshot
    rw [hps] at hpath'
    obtain rfl := Option.some.inj (hpath.symm.trans hpath')
    exact congrArg TaskInput.repo (hinput m.payload (List.mem_map_of_mem hm))
  · intro parent hparent
    obtain ⟨j, hlt, hj⟩ := holder parent hparent
    obtain ⟨j', r', hj', hr', hrepository⟩ := hchecked.parent parent hparent
    obtain rfl := taskId.injective (hj.trans hj'.symm)
    exact ⟨j, r', hlt, hj, hr', hrepository⟩

/-- Names of the tasks. -/
def taskName : RunId ↪ String :=
  ⟨fun n => String.ofList (List.replicate n 'x'), fun _ _ h =>
    List.replicate_left_injective 'x' (String.ofList_injective h)⟩

/-- A digest that tells all values apart. -/
def valueText : EnvironmentValue → String
  | .text s => s
  | .files paths => "\n".intercalate ("" :: paths)

def nodeEnvironment : EnvironmentInput :=
  { runtime := "node22", preparation := "npm ci", image := "", dependencyFiles := [] }

/-- A draft on the small snapshot, with a parent or none. -/
def smallDraft (parent : Option String) : DraftInput :=
  { snapshot := { smallSnapshot with parentTaskId := parent }, configVersion := 1
    environment := nodeEnvironment }

/-- A draft becomes a task, with the commit fetched first. -/
def intakeOf (input : DraftInput) (draftId : String) (readAt : ℕ) : List IntakeEvent := [
  .check input, .ensure 0 true, .pin 0 draftId, .insert 0 0,
  .confirm (envAt 0) {
    draftId, revision := 1, key := draftId, testsConfirmed := true, keepPinned := false
    currentHead := "base", fetches := false } readAt]

/-- A task and its successor, with a new configuration and a garbage
collection in between, and a collection of all that can be at the end. -/
def successorRun : List IntakeEvent :=
  [.createRepository "repo" "/repo" smallSnapshot.config nodeEnvironment] ++
    intakeOf (smallDraft none) "first" 0 ++
    [.configure "repo" smallSnapshot.config { nodeEnvironment with image := "other" },
      .collect "/repo" fun _ => false] ++
    intakeOf (smallDraft (some "")) "second" 1 ++ [.collect "/repo" fun _ => false]

/-- The successor has its commit, and the first task for a parent. -/
theorem tasks_drafted_of_successor :
    ∃ r : RunRows, ((intake taskName valueText).run successorRun).platform.plane.db.runs[1]? =
        some r ∧ r.task.snapshot = some (smallDraft (some "")).snapshot ∧
      "base" ∈ ((intake taskName valueText).run successorRun).commits "/repo" ∧
      ∃ j < 1, taskName j = "" := by
  obtain ⟨r, hr⟩ : ∃ r : RunRows,
      ((intake taskName valueText).run successorRun).platform.plane.db.runs[1]? = some r :=
    ⟨_, rfl⟩
  have hsnapshot : ((intake taskName valueText).run successorRun).platform.plane.db.runs[1]?.bind
      (·.task.snapshot) = some (smallDraft (some "")).snapshot := rfl
  rw [hr, Option.bind_some] at hsnapshot
  obtain ⟨⟨path, hpath, hmem, -⟩, -, hparent, -⟩ :=
    tasks_drafted taskName valueText successorRun _ rfl 1 r hr _ hsnapshot
  obtain ⟨j, -, hlt, hj, -⟩ := hparent "" rfl
  have hrepo : ((intake taskName valueText).run successorRun).platform.repoPath? "repo" =
      some "/repo" := rfl
  obtain rfl := Option.some.inj (hpath.symm.trans hrepo)
  exact ⟨r, hr, hsnapshot, hmem, j, hlt, hj⟩

end ControlPlane

end AgentReliability
