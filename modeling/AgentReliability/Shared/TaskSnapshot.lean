import Mathlib.Data.List.DropRight
import AgentReliability.Common.JsonSchema
import AgentReliability.Common.StringNumber
import AgentReliability.ControlPlane.Enums
/-!
# The task snapshot, in both languages

`packages/shared/src/task-snapshot.ts` and the Pydantic models of the
runtime describe one format twice. The first counts the length of a string
in UTF-16 code units and trims commands; the second counts code points and
takes them as they come. What the first returns, written as JSON, the
second accepts and reads as the same value.

A string is a sequence of Unicode scalar values. The JSON text is taken as
its value: its writer and its reader are the languages' own. Of Pydantic's
conversions between types, those of a value of another JSON type are left
out.
-/

namespace AgentReliability

namespace Shared

open ControlPlane (AgentKind DeliveryKind)
open JsonSchema

/-! ## The values -/

inductive Runtime where
  | pythonPytest
  deriving DecidableEq, Repr

inductive Preparation where
  | image | requirements
  deriving DecidableEq, Repr

structure RepositoryConfig where
  runtime : Runtime
  defaultDelivery : Option DeliveryKind
  preparation : Preparation
  image : String
  dependencyFiles : List String
  workdir : String
  allowedPaths : List String
  protectedPaths : List String
  staticCheck : List String
  failToPass : List String
  passToPass : List String
  acceptanceCriteria : List String
  deriving DecidableEq, Repr

structure Baseline where
  command : String
  expected : List String
  deriving DecidableEq, Repr

structure TaskBudget where
  tokens : ℤ
  seconds : ℤ
  turns : ℤ
  maxAttempts : ℤ
  deriving DecidableEq, Repr

structure Delivery where
  kind : DeliveryKind
  targetBranch : String
  expectedTargetSha : String
  deriving DecidableEq, Repr

structure Source where
  prUrl : String
  headSha : String
  baseSha : String
  ciSha : Option String
  evidence : String
  deriving DecidableEq, Repr

structure TaskSnapshot where
  schemaVersion : ℤ
  mode : String
  repositoryId : String
  parentTaskId : Option String
  configVersion : ℤ
  executionSha : String
  agentKind : AgentKind
  title : String
  description : String
  config : RepositoryConfig
  baseline : Baseline
  budget : TaskBudget
  delivery : Delivery
  source : Option Source
  deriving DecidableEq, Repr

/-! ### Their names -/

def Runtime.name : Runtime → String
  | pythonPytest => "python-pytest"

def Preparation.name : Preparation → String
  | image => "image"
  | requirements => "requirements"

def deliveryName : DeliveryKind → String
  | .patch => "patch"
  | .pullRequest => "pull-request"

def agentKindName : AgentKind → String
  | .selfLanggraph => "SELF_LANGGRAPH"
  | .miniSwe => "MINI_SWE"

def deliveryKinds : List DeliveryKind := [.patch, .pullRequest]

def preparations : List Preparation := [.image, .requirements]

/-- `AGENT_KINDS`. -/
def agentKinds : List AgentKind := [.selfLanggraph, .miniSwe]

/-! ### Their JSON -/

def strings (items : List String) : Json := .arr (items.map .str)

def number (n : ℤ) : Json := .num n

/-- A string, or `null`. -/
def stringOrNull : Option String → Json
  | some s => .str s
  | none => .null

def RepositoryConfig.members (c : RepositoryConfig) : List (String × Option Json) := [
  ("runtime", some (.str c.runtime.name)),
  ("defaultDelivery", c.defaultDelivery.map fun d => .str (deliveryName d)),
  ("preparation", some (.str c.preparation.name)),
  ("image", some (.str c.image)),
  ("dependencyFiles", some (strings c.dependencyFiles)),
  ("workdir", some (.str c.workdir)),
  ("allowedPaths", some (strings c.allowedPaths)),
  ("protectedPaths", some (strings c.protectedPaths)),
  ("staticCheck", some (strings c.staticCheck)),
  ("failToPass", some (strings c.failToPass)),
  ("passToPass", some (strings c.passToPass)),
  ("acceptanceCriteria", some (strings c.acceptanceCriteria))]

def RepositoryConfig.toJson (c : RepositoryConfig) : Json := .object c.members

def Baseline.members (b : Baseline) : List (String × Option Json) := [
  ("command", some (.str b.command)),
  ("expected", some (strings b.expected))]

def Baseline.toJson (b : Baseline) : Json := .object b.members

def TaskBudget.members (b : TaskBudget) : List (String × Option Json) := [
  ("tokens", some (number b.tokens)),
  ("seconds", some (number b.seconds)),
  ("turns", some (number b.turns)),
  ("maxAttempts", some (number b.maxAttempts))]

def TaskBudget.toJson (b : TaskBudget) : Json := .object b.members

def Delivery.members (d : Delivery) : List (String × Option Json) := [
  ("kind", some (.str (deliveryName d.kind))),
  ("targetBranch", some (.str d.targetBranch)),
  ("expectedTargetSha", some (.str d.expectedTargetSha))]

def Delivery.toJson (d : Delivery) : Json := .object d.members

def Source.members (s : Source) : List (String × Option Json) := [
  ("prUrl", some (.str s.prUrl)),
  ("headSha", some (.str s.headSha)),
  ("baseSha", some (.str s.baseSha)),
  ("ciSha", some (stringOrNull s.ciSha)),
  ("evidence", some (.str s.evidence))]

def Source.toJson (s : Source) : Json := .object s.members

def TaskSnapshot.members (s : TaskSnapshot) : List (String × Option Json) := [
  ("schemaVersion", some (number s.schemaVersion)),
  ("mode", some (.str s.mode)),
  ("repositoryId", some (.str s.repositoryId)),
  ("parentTaskId", s.parentTaskId.map .str),
  ("configVersion", some (number s.configVersion)),
  ("executionSha", some (.str s.executionSha)),
  ("agentKind", some (.str (agentKindName s.agentKind))),
  ("title", some (.str s.title)),
  ("description", some (.str s.description)),
  ("config", some s.config.toJson),
  ("baseline", some s.baseline.toJson),
  ("budget", some s.budget.toJson),
  ("delivery", some s.delivery.toJson),
  ("source", s.source.map Source.toJson)]

def TaskSnapshot.toJson (s : TaskSnapshot) : Json := .object s.members

/-! ## The rules of both -/

/-- `/^[0-9a-f]{40}$/`, which neither engine lets match before a line feed at
the end. -/
def isGitSha (s : String) : Bool :=
  s.toList.length = 40 && s.toList.all fun c => ('0' ≤ c ∧ c ≤ '9') || ('a' ≤ c ∧ c ≤ 'f')

def positive (n : ℤ) : Bool := 0 < n

/-! ## `task-snapshot.ts` -/

/-- `value.length`. -/
def utf16Length (s : String) : ℕ := (s.toList.map fun c => if c.toNat < 0x10000 then 1 else 2).sum

/-- `z.string().min(lo).max(hi)`. -/
def stringIn (lo hi : ℕ) : JsonSchema String :=
  check (fun s => lo ≤ utf16Length s && utf16Length s ≤ hi) string

/-- `z.string().min(1)`. -/
def nonempty : JsonSchema String := check (fun s => 1 ≤ utf16Length s) string

def gitShaSchema : JsonSchema String := check isGitSha string

/-- The refinement of `RelativePathSchema`. -/
def staysInside (value : String) : Bool :=
  value.toList.head? ≠ some '/' && '\\' ∉ value.toList &&
    !(value.toList.splitOn '/').contains ['.', '.'] && !value.toList.any fun c => c.toNat ≤ 0x1f

def relativePathSchema : JsonSchema String := check staysInside (stringIn 1 512)

def trim (s : String) : String := String.ofList (StringNumber.trim s.toList)

/-- `z.string().trim()`. -/
def trimmed : JsonSchema String := fun v => (string v).map trim

def commandSchema : JsonSchema String :=
  check (fun s => 1 ≤ utf16Length s && utf16Length s ≤ 4096) trimmed

/-- `z.array(..).min(1)`. -/
def nonemptyArray {α : Type} (s : JsonSchema α) : JsonSchema (List α) :=
  check (fun as => 1 ≤ as.length) (array s)

/-- `z.number().int()`, which is a safe integer. -/
def safeInt : JsonSchema ℤ := check (fun n => -(2 ^ 53 - 1) ≤ n && n ≤ 2 ^ 53 - 1) int

/-- `z.number().int().positive()`. -/
def positiveInt : JsonSchema ℤ := check positive safeInt

/-- `z.number().int().positive().max(hi)`. -/
def positiveMax (hi : ℤ) : JsonSchema ℤ := check (fun n => n ≤ hi) positiveInt

def literalInt (m : ℤ) : JsonSchema ℤ := check (fun n => n = m) int

def literal (text : String) : JsonSchema String := check (fun s => s = text) string

def repositoryConfigSchema : JsonSchema RepositoryConfig := fun v => do
  v.strict ["runtime", "defaultDelivery", "preparation", "image", "dependencyFiles", "workdir",
    "allowedPaths", "protectedPaths", "staticCheck", "failToPass", "passToPass",
    "acceptanceCriteria"]
  let runtime ← oneOf Runtime.name [.pythonPytest] (v.get "runtime")
  let defaultDelivery ← optional (oneOf deliveryName deliveryKinds) (v.get "defaultDelivery")
  let preparation ← oneOf Preparation.name preparations (v.get "preparation")
  let image ← stringIn 1 512 (v.get "image")
  let dependencyFiles ← orDefault [] (array relativePathSchema) (v.get "dependencyFiles")
  let workdir ← orDefault "." relativePathSchema (v.get "workdir")
  let allowedPaths ← nonemptyArray relativePathSchema (v.get "allowedPaths")
  let protectedPaths ← orDefault [] (array relativePathSchema) (v.get "protectedPaths")
  let staticCheck ← array commandSchema (v.get "staticCheck")
  let failToPass ← array commandSchema (v.get "failToPass")
  let passToPass ← array commandSchema (v.get "passToPass")
  let acceptanceCriteria ← nonemptyArray nonempty (v.get "acceptanceCriteria")
  pure { runtime, defaultDelivery, preparation, image, dependencyFiles, workdir, allowedPaths,
         protectedPaths, staticCheck, failToPass, passToPass, acceptanceCriteria }

/-- `TaskSnapshotSchema.baseline`. -/
def baselineSchema : JsonSchema Baseline := fun v => do
  v.strict ["command", "expected"]
  let command ← commandSchema (v.get "command")
  let expected ← nonemptyArray nonempty (v.get "expected")
  pure { command, expected }

/-- `TaskSnapshotSchema.budget`. -/
def taskBudgetSchema : JsonSchema TaskBudget := fun v => do
  v.strict ["tokens", "seconds", "turns", "maxAttempts"]
  let tokens ← positiveMax 10000000 (v.get "tokens")
  let seconds ← positiveMax 86400 (v.get "seconds")
  let turns ← positiveMax 1000 (v.get "turns")
  let maxAttempts ← positiveMax 20 (v.get "maxAttempts")
  pure { tokens, seconds, turns, maxAttempts }

/-- `TaskSnapshotSchema.delivery`. -/
def deliverySchema : JsonSchema Delivery := fun v => do
  v.strict ["kind", "targetBranch", "expectedTargetSha"]
  let kind ← oneOf deliveryName deliveryKinds (v.get "kind")
  let targetBranch ← stringIn 1 255 (v.get "targetBranch")
  let expectedTargetSha ← gitShaSchema (v.get "expectedTargetSha")
  pure { kind, targetBranch, expectedTargetSha }

section Urls

-- `new URL(text)` does not throw
variable (isUrl : String → Bool)

/-- `z.string().url()`: the text is trimmed, and kept as it was written. -/
def urlSchema : JsonSchema String := check isUrl trimmed

/-- `TaskSnapshotSchema.source`. -/
def sourceSchema : JsonSchema Source := fun v => do
  v.strict ["prUrl", "headSha", "baseSha", "ciSha", "evidence"]
  let prUrl ← urlSchema isUrl (v.get "prUrl")
  let headSha ← gitShaSchema (v.get "headSha")
  let baseSha ← gitShaSchema (v.get "baseSha")
  let ciSha ← nullable string (v.get "ciSha")
  let evidence ← stringIn 0 100000 (v.get "evidence")
  pure { prUrl, headSha, baseSha, ciSha, evidence }

def taskSnapshotSchema : JsonSchema TaskSnapshot := fun v => do
  v.strict ["schemaVersion", "mode", "repositoryId", "parentTaskId", "configVersion",
    "executionSha", "agentKind", "title", "description", "config", "baseline", "budget", "delivery",
    "source"]
  let schemaVersion ← literalInt 2 (v.get "schemaVersion")
  let mode ← literal "REAL" (v.get "mode")
  let repositoryId ← nonempty (v.get "repositoryId")
  let parentTaskId ← optional nonempty (v.get "parentTaskId")
  let configVersion ← positiveInt (v.get "configVersion")
  let executionSha ← gitShaSchema (v.get "executionSha")
  let agentKind ← oneOf agentKindName agentKinds (v.get "agentKind")
  let title ← stringIn 1 300 (v.get "title")
  let description ← stringIn 1 100000 (v.get "description")
  let config ← repositoryConfigSchema (v.get "config")
  let baseline ← baselineSchema (v.get "baseline")
  let budget ← taskBudgetSchema (v.get "budget")
  let delivery ← deliverySchema (v.get "delivery")
  let source ← optional (sourceSchema isUrl) (v.get "source")
  pure { schemaVersion, mode, repositoryId, parentTaskId, configVersion, executionSha, agentKind,
         title, description, config, baseline, budget, delivery, source }

end Urls

/-! ## `task_snapshot.py` -/

namespace Pydantic

/-- `Field(min_length=lo, max_length=hi)`. -/
def stringIn (lo hi : ℕ) : JsonSchema String :=
  check (fun s => lo ≤ s.length && s.length ≤ hi) string

/-- `Field(min_length=1)`. -/
def nonempty : JsonSchema String := check (fun s => 1 ≤ s.length) string

/-- `relative` raises on this value. -/
def leaves (value : String) : Bool :=
  value.toList.head? = some '/' || '\\' ∈ value.toList ||
    (value.toList.splitOn '/').contains ['.', '.'] || value.toList.any fun c => c.toNat < 32

def relativePath : JsonSchema String := check (fun value => !leaves value) (stringIn 1 512)

def sha : JsonSchema String := check isGitSha string

def command : JsonSchema String := stringIn 1 4096

/-- A list with `Field(min_length=1)`. -/
def nonemptyList {α : Type} (s : JsonSchema α) : JsonSchema (List α) :=
  check (fun as => 1 ≤ as.length) (array s)

/-- `Field(gt=0, le=hi)`. -/
def positiveMax (hi : ℤ) : JsonSchema ℤ := check (fun n => 0 < n && n ≤ hi) int

/-- `Field(gt=0)`. -/
def positiveInt : JsonSchema ℤ := check (fun n => 0 < n) int

def repositoryConfig : JsonSchema RepositoryConfig := fun v => do
  v.strict ["runtime", "defaultDelivery", "preparation", "image", "dependencyFiles", "workdir",
    "allowedPaths", "protectedPaths", "staticCheck", "failToPass", "passToPass",
    "acceptanceCriteria"]
  let runtime ← oneOf Runtime.name [.pythonPytest] (v.get "runtime")
  let defaultDelivery ← optionalOrNull (oneOf deliveryName deliveryKinds)
    (v.get "defaultDelivery")
  let preparation ← oneOf Preparation.name preparations (v.get "preparation")
  let image ← stringIn 1 512 (v.get "image")
  let dependencyFiles ← orDefault [] (array relativePath) (v.get "dependencyFiles")
  let workdir ← orDefault "." relativePath (v.get "workdir")
  let allowedPaths ← nonemptyList relativePath (v.get "allowedPaths")
  let protectedPaths ← orDefault [] (array relativePath) (v.get "protectedPaths")
  let staticCheck ← array command (v.get "staticCheck")
  let failToPass ← array command (v.get "failToPass")
  let passToPass ← array command (v.get "passToPass")
  let acceptanceCriteria ← nonemptyList nonempty (v.get "acceptanceCriteria")
  pure { runtime, defaultDelivery, preparation, image, dependencyFiles, workdir, allowedPaths,
         protectedPaths, staticCheck, failToPass, passToPass, acceptanceCriteria }

def baseline : JsonSchema Baseline := fun v => do
  v.strict ["command", "expected"]
  let command ← command (v.get "command")
  let expected ← nonemptyList nonempty (v.get "expected")
  pure { command, expected }

def taskBudget : JsonSchema TaskBudget := fun v => do
  v.strict ["tokens", "seconds", "turns", "maxAttempts"]
  let tokens ← positiveMax 10000000 (v.get "tokens")
  let seconds ← positiveMax 86400 (v.get "seconds")
  let turns ← positiveMax 1000 (v.get "turns")
  let maxAttempts ← positiveMax 20 (v.get "maxAttempts")
  pure { tokens, seconds, turns, maxAttempts }

def delivery : JsonSchema Delivery := fun v => do
  v.strict ["kind", "targetBranch", "expectedTargetSha"]
  let kind ← oneOf deliveryName deliveryKinds (v.get "kind")
  let targetBranch ← stringIn 1 255 (v.get "targetBranch")
  let expectedTargetSha ← sha (v.get "expectedTargetSha")
  pure { kind, targetBranch, expectedTargetSha }

/-- `str | None` without a default. -/
def source : JsonSchema Source := fun v => do
  v.strict ["prUrl", "headSha", "baseSha", "ciSha", "evidence"]
  let prUrl ← string (v.get "prUrl")
  let headSha ← sha (v.get "headSha")
  let baseSha ← sha (v.get "baseSha")
  let ciSha ← nullable string (v.get "ciSha")
  let evidence ← stringIn 0 100000 (v.get "evidence")
  pure { prUrl, headSha, baseSha, ciSha, evidence }

def taskSnapshot : JsonSchema TaskSnapshot := fun v => do
  v.strict ["schemaVersion", "mode", "repositoryId", "parentTaskId", "configVersion",
    "executionSha", "agentKind", "title", "description", "config", "baseline", "budget", "delivery",
    "source"]
  let schemaVersion ← literalInt 2 (v.get "schemaVersion")
  let mode ← literal "REAL" (v.get "mode")
  let repositoryId ← nonempty (v.get "repositoryId")
  let parentTaskId ← optionalOrNull string (v.get "parentTaskId")
  let configVersion ← positiveInt (v.get "configVersion")
  let executionSha ← sha (v.get "executionSha")
  let agentKind ← oneOf agentKindName agentKinds (v.get "agentKind")
  let title ← stringIn 1 300 (v.get "title")
  let description ← stringIn 1 100000 (v.get "description")
  let config ← repositoryConfig (v.get "config")
  let baseline ← baseline (v.get "baseline")
  let budget ← taskBudget (v.get "budget")
  let delivery ← delivery (v.get "delivery")
  let source ← optionalOrNull source (v.get "source")
  pure { schemaVersion, mode, repositoryId, parentTaskId, configVersion, executionSha, agentKind,
         title, description, config, baseline, budget, delivery, source }

end Pydantic

/-! ## What the rules have to do with each other -/

/-- **A code point is at least one code unit**, so the runtime's upper bounds
are the weaker ones. -/
theorem length_le_utf16Length (s : String) : s.length ≤ utf16Length s := by
  have hsum : ∀ cs : List Char,
      cs.length ≤ (cs.map fun c => if c.toNat < 0x10000 then 1 else 2).sum := by
    intro cs
    induction cs with
    | nil => simp
    | cons c cs ih =>
      simp only [List.length_cons, List.map_cons, List.sum_cons]
      split <;> omega
  rw [← String.length_toList]
  exact hsum s.toList

theorem length_pos_of_utf16Length {s : String} (h : 1 ≤ utf16Length s) : 1 ≤ s.length := by
  rw [← String.length_toList]
  unfold utf16Length at h
  match s.toList, h with
  | c :: cs, _ => simp

theorem not_leaves_of_staysInside {value : String} (h : staysInside value) :
    !Pydantic.leaves value := by
  simp only [staysInside, Bool.and_eq_true, decide_eq_true_eq, Bool.not_eq_true',
    List.any_eq_false] at h
  obtain ⟨⟨⟨hhead, hback⟩, hup⟩, hcontrol⟩ := h
  simp only [Pydantic.leaves, Bool.not_eq_true', Bool.or_eq_false_iff, decide_eq_false_iff_not,
    List.any_eq_false]
  refine ⟨⟨⟨hhead, hback⟩, hup⟩, fun c hc hlow => hcontrol c hc ?_⟩
  simp only [decide_eq_true_eq] at hlow ⊢
  omega

/-- **Trimming twice is trimming once.** -/
theorem trim_trim (s : String) : trim (trim s) = trim s := by
  have htrim : ∀ cs, StringNumber.trim (StringNumber.trim cs) = StringNumber.trim cs := by
    intro cs
    have hfront : (StringNumber.trim cs).dropWhile StringNumber.isWhite = StringNumber.trim cs := by
      -- what is left after the end is cut starts as it did before
      rw [List.dropWhile_eq_self_iff]
      intro hpos hwhite
      have hstart : StringNumber.trim cs <+: cs.dropWhile StringNumber.isWhite :=
        List.rdropWhile_prefix StringNumber.isWhite _
      rw [hstart.getElem hpos] at hwhite
      exact List.dropWhile_get_zero_not _ _ _ hwhite
    have hback := List.rdropWhile_idempotent StringNumber.isWhite
      (cs.dropWhile StringNumber.isWhite)
    show (((StringNumber.trim cs).dropWhile StringNumber.isWhite).reverse.dropWhile
      StringNumber.isWhite).reverse = StringNumber.trim cs
    rw [hfront]
    exact hback
  unfold trim
  rw [String.toList_ofList, htrim]

/-! ## Strings, arrays and numbers are read back -/

theorem present_str {α : Type} (f : α → String) : Present fun a => .str (f a) :=
  fun _ => ⟨by simp, by simp⟩

theorem present_object {α : Type} (f : α → List (String × Option Json)) :
    Present fun a => .object (f a) :=
  fun _ => ⟨by simp [Json.object], by simp [Json.object]⟩

theorem present_strings : Present strings := fun _ => ⟨by simp [strings], by simp [strings]⟩

/-! ### By the schema itself -/

theorem stable_stringIn {lo hi : ℕ} : Stable (stringIn lo hi) .str := Stable.check Accepts.string

theorem stable_nonempty : Stable nonempty .str := Stable.check Accepts.string

theorem stable_gitSha : Stable gitShaSchema .str := Stable.check Accepts.string

theorem stable_relativePath : Stable relativePathSchema .str := stable_stringIn.check

/-- What was trimmed is read back as it is. -/
theorem stable_trimmed : Stable trimmed .str := by
  refine ⟨fun {v s} hs => ?_⟩
  obtain ⟨raw, -, rfl⟩ := Option.map_eq_some_iff.mp hs
  show some (trim (trim raw)) = some (trim raw)
  rw [trim_trim]

theorem stable_command : Stable commandSchema .str := stable_trimmed.check

theorem stable_safeInt : Stable safeInt number := Stable.check Accepts.int

theorem stable_positiveInt : Stable positiveInt number := stable_safeInt.check

theorem stable_positiveMax {hi : ℤ} : Stable (positiveMax hi) number := stable_positiveInt.check

theorem stable_literal {text : String} : Stable (literal text) .str := Stable.check Accepts.string

theorem stable_literalInt {m : ℤ} : Stable (literalInt m) number := Stable.check Accepts.int

theorem stable_runtime : Stable (oneOf Runtime.name [.pythonPytest]) fun r => .str r.name :=
  .oneOf fun r _ => by cases r; decide

theorem stable_preparation : Stable (oneOf Preparation.name preparations) fun p => .str p.name :=
  .oneOf fun p _ => by cases p <;> decide

theorem stable_agentKind :
    Stable (oneOf agentKindName agentKinds) fun k => .str (agentKindName k) :=
  .oneOf fun k _ => by cases k <;> decide

theorem stable_deliveryKind :
    Stable (oneOf deliveryName deliveryKinds) fun d => .str (deliveryName d) :=
  .oneOf fun d _ => by cases d <;> decide

theorem stable_nullableString : Stable (nullable string) stringOrNull := by
  refine ⟨fun {v o} _ => ?_⟩
  cases o <;> rfl

theorem stable_strings {s : JsonSchema String} (h : Stable s .str) : Stable (array s) strings :=
  Accepts.array h

theorem stable_nonemptyArray {s : JsonSchema String} (h : Stable s .str) :
    Stable (nonemptyArray s) strings := (stable_strings h).check

theorem stable_paths : Stable (orDefault [] (array relativePathSchema)) strings :=
  (stable_strings stable_relativePath).orDefault present_strings rfl

theorem stable_workdir : Stable (orDefault "." relativePathSchema) .str :=
  stable_relativePath.orDefault (present_str id) (by decide)

/-! ### By the runtime -/

theorem accepts_stringIn {lo hi : ℕ} (hlo : lo ≤ 1) :
    Accepts (stringIn lo hi) .str (Pydantic.stringIn lo hi) := by
  refine Accepts.string.check fun s hs => ?_
  simp only [Bool.and_eq_true, decide_eq_true_eq] at hs ⊢
  have hle := length_le_utf16Length s
  refine ⟨?_, by omega⟩
  by_cases h : 1 ≤ utf16Length s
  · have := length_pos_of_utf16Length h
    omega
  · omega

theorem accepts_text {hi : ℕ} : Accepts (stringIn 1 hi) .str (Pydantic.stringIn 1 hi) :=
  accepts_stringIn (le_refl 1)

theorem accepts_nonempty : Accepts nonempty .str Pydantic.nonempty := by
  refine Accepts.string.check fun s hs => ?_
  simp only [decide_eq_true_eq] at hs ⊢
  exact length_pos_of_utf16Length hs

theorem accepts_relativePath : Accepts relativePathSchema .str Pydantic.relativePath :=
  accepts_text.check fun _ => not_leaves_of_staysInside

theorem accepts_trimmed : Accepts trimmed .str string := by
  refine ⟨fun {v s} hs => ?_⟩
  obtain ⟨raw, -, rfl⟩ := Option.map_eq_some_iff.mp hs
  rfl

theorem accepts_command : Accepts commandSchema .str Pydantic.command := by
  refine accepts_trimmed.check fun s hs => ?_
  simp only [Bool.and_eq_true, decide_eq_true_eq] at hs ⊢
  have hle := length_le_utf16Length s
  exact ⟨length_pos_of_utf16Length hs.1, by omega⟩

theorem accepts_positiveMax {hi : ℤ} :
    Accepts (positiveMax hi) number (Pydantic.positiveMax hi) := by
  refine ⟨fun {v n} hn => ?_⟩
  obtain ⟨hpositive, hmax⟩ := check_eq_some.mp hn
  obtain ⟨-, hpos⟩ := check_eq_some.mp hpositive
  refine check_eq_some.mpr ⟨rfl, ?_⟩
  simp only [positive, decide_eq_true_eq] at hpos hmax
  simp only [Bool.and_eq_true, decide_eq_true_eq]
  exact ⟨hpos, hmax⟩

theorem accepts_positiveInt : Accepts positiveInt number Pydantic.positiveInt :=
  Accepts.check (Accepts.of_check Accepts.int) fun _ h => h

theorem accepts_strings {s r : JsonSchema String} (h : Accepts s .str r) :
    Accepts (array s) strings (array r) := h.array

theorem accepts_nonemptyArray {s r : JsonSchema String} (h : Accepts s .str r) :
    Accepts (nonemptyArray s) strings (Pydantic.nonemptyList r) :=
  (accepts_strings h).check fun _ h => h

theorem accepts_paths : Accepts (orDefault [] (array relativePathSchema)) strings
    (orDefault [] (array Pydantic.relativePath)) :=
  (accepts_strings accepts_relativePath).orDefault present_strings rfl

theorem accepts_workdir :
    Accepts (orDefault "." relativePathSchema) .str (orDefault "." Pydantic.relativePath) :=
  accepts_relativePath.orDefault (present_str id) (by decide)

/-! ## The records are read back -/

theorem RepositoryConfig.nodup (c : RepositoryConfig) : (c.members.map Prod.fst).Nodup := by
  simp [RepositoryConfig.members]

theorem Baseline.nodup (b : Baseline) : (b.members.map Prod.fst).Nodup := by
  simp [Baseline.members]

theorem TaskBudget.nodup (b : TaskBudget) : (b.members.map Prod.fst).Nodup := by
  simp [TaskBudget.members]

theorem Delivery.nodup (d : Delivery) : (d.members.map Prod.fst).Nodup := by
  simp [Delivery.members]

theorem Source.nodup (s : Source) : (s.members.map Prod.fst).Nodup := by
  simp [Source.members]

theorem TaskSnapshot.nodup (s : TaskSnapshot) : (s.members.map Prod.fst).Nodup := by
  simp [TaskSnapshot.members]

theorem repositoryConfig_read {v : Json} {c : RepositoryConfig}
    (h : repositoryConfigSchema v = some c) :
    repositoryConfigSchema c.toJson = some c ∧ Pydantic.repositoryConfig c.toJson = some c := by
  have hnodup := c.nodup
  obtain ⟨-, -, h⟩ := Option.bind_eq_some_iff.mp h
  obtain ⟨runtime, hruntime, h⟩ := Option.bind_eq_some_iff.mp h
  obtain ⟨defaultDelivery, hdefaultDelivery, h⟩ := Option.bind_eq_some_iff.mp h
  obtain ⟨preparation, hpreparation, h⟩ := Option.bind_eq_some_iff.mp h
  obtain ⟨image, himage, h⟩ := Option.bind_eq_some_iff.mp h
  obtain ⟨dependencyFiles, hdependencyFiles, h⟩ := Option.bind_eq_some_iff.mp h
  obtain ⟨workdir, hworkdir, h⟩ := Option.bind_eq_some_iff.mp h
  obtain ⟨allowedPaths, hallowedPaths, h⟩ := Option.bind_eq_some_iff.mp h
  obtain ⟨protectedPaths, hprotectedPaths, h⟩ := Option.bind_eq_some_iff.mp h
  obtain ⟨staticCheck, hstaticCheck, h⟩ := Option.bind_eq_some_iff.mp h
  obtain ⟨failToPass, hfailToPass, h⟩ := Option.bind_eq_some_iff.mp h
  obtain ⟨passToPass, hpassToPass, h⟩ := Option.bind_eq_some_iff.mp h
  obtain ⟨acceptanceCriteria, hacceptanceCriteria, h⟩ := Option.bind_eq_some_iff.mp h
  obtain rfl := Option.some.inj h
  constructor
  · refine bind_read (Json.strict_object (by simp [RepositoryConfig.members])) ?_
    refine bind_read (read_member hnodup rfl (stable_runtime.reads hruntime)) ?_
    refine bind_read (read_optional hnodup rfl
      (stable_deliveryKind.optional (present_str deliveryName) hdefaultDelivery)) ?_
    refine bind_read (read_member hnodup rfl (stable_preparation.reads hpreparation)) ?_
    refine bind_read (read_member hnodup rfl (stable_stringIn.reads himage)) ?_
    refine bind_read (read_member hnodup rfl (stable_paths.reads hdependencyFiles)) ?_
    refine bind_read (read_member hnodup rfl (stable_workdir.reads hworkdir)) ?_
    refine bind_read
      (read_member hnodup rfl ((stable_nonemptyArray stable_relativePath).reads hallowedPaths)) ?_
    refine bind_read (read_member hnodup rfl (stable_paths.reads hprotectedPaths)) ?_
    refine bind_read
      (read_member hnodup rfl ((stable_strings stable_command).reads hstaticCheck)) ?_
    refine bind_read (read_member hnodup rfl ((stable_strings stable_command).reads hfailToPass)) ?_
    refine bind_read (read_member hnodup rfl ((stable_strings stable_command).reads hpassToPass)) ?_
    refine bind_read
      (read_member hnodup rfl ((stable_nonemptyArray stable_nonempty).reads hacceptanceCriteria)) ?_
    rfl
  · refine bind_read (Json.strict_object (by simp [RepositoryConfig.members])) ?_
    refine bind_read (read_member hnodup rfl (stable_runtime.reads hruntime)) ?_
    refine bind_read (read_optional hnodup rfl
      (stable_deliveryKind.optionalOrNull (present_str deliveryName) hdefaultDelivery)) ?_
    refine bind_read (read_member hnodup rfl (stable_preparation.reads hpreparation)) ?_
    refine bind_read (read_member hnodup rfl (accepts_text.reads himage)) ?_
    refine bind_read (read_member hnodup rfl (accepts_paths.reads hdependencyFiles)) ?_
    refine bind_read (read_member hnodup rfl (accepts_workdir.reads hworkdir)) ?_
    refine bind_read
      (read_member hnodup rfl ((accepts_nonemptyArray accepts_relativePath).reads hallowedPaths)) ?_
    refine bind_read (read_member hnodup rfl (accepts_paths.reads hprotectedPaths)) ?_
    refine bind_read
      (read_member hnodup rfl ((accepts_strings accepts_command).reads hstaticCheck)) ?_
    refine bind_read
      (read_member hnodup rfl ((accepts_strings accepts_command).reads hfailToPass)) ?_
    refine bind_read
      (read_member hnodup rfl ((accepts_strings accepts_command).reads hpassToPass)) ?_
    refine bind_read (read_member hnodup rfl
      ((accepts_nonemptyArray accepts_nonempty).reads hacceptanceCriteria)) ?_
    rfl

theorem baseline_read {v : Json} {b : Baseline} (h : baselineSchema v = some b) :
    baselineSchema b.toJson = some b ∧ Pydantic.baseline b.toJson = some b := by
  have hnodup := b.nodup
  obtain ⟨-, -, h⟩ := Option.bind_eq_some_iff.mp h
  obtain ⟨command, hcommand, h⟩ := Option.bind_eq_some_iff.mp h
  obtain ⟨expected, hexpected, h⟩ := Option.bind_eq_some_iff.mp h
  obtain rfl := Option.some.inj h
  constructor
  · refine bind_read (Json.strict_object (by simp [Baseline.members])) ?_
    refine bind_read (read_member hnodup rfl (stable_command.reads hcommand)) ?_
    refine bind_read
      (read_member hnodup rfl ((stable_nonemptyArray stable_nonempty).reads hexpected)) ?_
    rfl
  · refine bind_read (Json.strict_object (by simp [Baseline.members])) ?_
    refine bind_read (read_member hnodup rfl (accepts_command.reads hcommand)) ?_
    refine bind_read
      (read_member hnodup rfl ((accepts_nonemptyArray accepts_nonempty).reads hexpected)) ?_
    rfl

theorem taskBudget_read {v : Json} {b : TaskBudget} (h : taskBudgetSchema v = some b) :
    taskBudgetSchema b.toJson = some b ∧ Pydantic.taskBudget b.toJson = some b := by
  have hnodup := b.nodup
  obtain ⟨-, -, h⟩ := Option.bind_eq_some_iff.mp h
  obtain ⟨tokens, htokens, h⟩ := Option.bind_eq_some_iff.mp h
  obtain ⟨seconds, hseconds, h⟩ := Option.bind_eq_some_iff.mp h
  obtain ⟨turns, hturns, h⟩ := Option.bind_eq_some_iff.mp h
  obtain ⟨maxAttempts, hmaxAttempts, h⟩ := Option.bind_eq_some_iff.mp h
  obtain rfl := Option.some.inj h
  constructor
  · refine bind_read (Json.strict_object (by simp [TaskBudget.members])) ?_
    refine bind_read (read_member hnodup rfl (stable_positiveMax.reads htokens)) ?_
    refine bind_read (read_member hnodup rfl (stable_positiveMax.reads hseconds)) ?_
    refine bind_read (read_member hnodup rfl (stable_positiveMax.reads hturns)) ?_
    refine bind_read (read_member hnodup rfl (stable_positiveMax.reads hmaxAttempts)) ?_
    rfl
  · refine bind_read (Json.strict_object (by simp [TaskBudget.members])) ?_
    refine bind_read (read_member hnodup rfl (accepts_positiveMax.reads htokens)) ?_
    refine bind_read (read_member hnodup rfl (accepts_positiveMax.reads hseconds)) ?_
    refine bind_read (read_member hnodup rfl (accepts_positiveMax.reads hturns)) ?_
    refine bind_read (read_member hnodup rfl (accepts_positiveMax.reads hmaxAttempts)) ?_
    rfl

theorem delivery_read {v : Json} {d : Delivery} (h : deliverySchema v = some d) :
    deliverySchema d.toJson = some d ∧ Pydantic.delivery d.toJson = some d := by
  have hnodup := d.nodup
  obtain ⟨-, -, h⟩ := Option.bind_eq_some_iff.mp h
  obtain ⟨kind, hkind, h⟩ := Option.bind_eq_some_iff.mp h
  obtain ⟨targetBranch, htargetBranch, h⟩ := Option.bind_eq_some_iff.mp h
  obtain ⟨expectedTargetSha, hexpectedTargetSha, h⟩ := Option.bind_eq_some_iff.mp h
  obtain rfl := Option.some.inj h
  constructor
  · refine bind_read (Json.strict_object (by simp [Delivery.members])) ?_
    refine bind_read (read_member hnodup rfl (stable_deliveryKind.reads hkind)) ?_
    refine bind_read (read_member hnodup rfl (stable_stringIn.reads htargetBranch)) ?_
    refine bind_read (read_member hnodup rfl (stable_gitSha.reads hexpectedTargetSha)) ?_
    rfl
  · refine bind_read (Json.strict_object (by simp [Delivery.members])) ?_
    refine bind_read (read_member hnodup rfl (stable_deliveryKind.reads hkind)) ?_
    refine bind_read (read_member hnodup rfl (accepts_text.reads htargetBranch)) ?_
    refine bind_read (read_member hnodup rfl (stable_gitSha.reads hexpectedTargetSha)) ?_
    rfl

section Urls

variable {isUrl : String → Bool}

theorem source_read {v : Json} {s : Source} (h : sourceSchema isUrl v = some s) :
    sourceSchema isUrl s.toJson = some s ∧ Pydantic.source s.toJson = some s := by
  have hnodup := s.nodup
  obtain ⟨-, -, h⟩ := Option.bind_eq_some_iff.mp h
  obtain ⟨prUrl, hprUrl, h⟩ := Option.bind_eq_some_iff.mp h
  obtain ⟨headSha, hheadSha, h⟩ := Option.bind_eq_some_iff.mp h
  obtain ⟨baseSha, hbaseSha, h⟩ := Option.bind_eq_some_iff.mp h
  obtain ⟨ciSha, hciSha, h⟩ := Option.bind_eq_some_iff.mp h
  obtain ⟨evidence, hevidence, h⟩ := Option.bind_eq_some_iff.mp h
  obtain rfl := Option.some.inj h
  constructor
  · refine bind_read (Json.strict_object (by simp [Source.members])) ?_
    refine bind_read (read_member hnodup rfl (stable_trimmed.check.reads hprUrl)) ?_
    refine bind_read (read_member hnodup rfl (stable_gitSha.reads hheadSha)) ?_
    refine bind_read (read_member hnodup rfl (stable_gitSha.reads hbaseSha)) ?_
    refine bind_read (read_member hnodup rfl (stable_nullableString.reads hciSha)) ?_
    refine bind_read (read_member hnodup rfl (stable_stringIn.reads hevidence)) ?_
    rfl
  · refine bind_read (Json.strict_object (by simp [Source.members])) ?_
    refine bind_read (read_member hnodup rfl ((Accepts.of_check accepts_trimmed).reads hprUrl)) ?_
    refine bind_read (read_member hnodup rfl (stable_gitSha.reads hheadSha)) ?_
    refine bind_read (read_member hnodup rfl (stable_gitSha.reads hbaseSha)) ?_
    refine bind_read (read_member hnodup rfl (stable_nullableString.reads hciSha)) ?_
    refine bind_read (read_member hnodup rfl ((accepts_stringIn zero_le_one).reads hevidence)) ?_
    rfl

theorem stable_source : Stable (sourceSchema isUrl) Source.toJson := ⟨fun h => (source_read h).1⟩

theorem accepts_source : Accepts (sourceSchema isUrl) Source.toJson Pydantic.source :=
  ⟨fun h => (source_read h).2⟩

/-- **A snapshot the control plane returns is read back by both sides**, and is
the same value. -/
theorem taskSnapshot_read {v : Json} {s : TaskSnapshot} (h : taskSnapshotSchema isUrl v = some s) :
    taskSnapshotSchema isUrl s.toJson = some s ∧ Pydantic.taskSnapshot s.toJson = some s := by
  have hnodup := s.nodup
  obtain ⟨-, -, h⟩ := Option.bind_eq_some_iff.mp h
  obtain ⟨schemaVersion, hschemaVersion, h⟩ := Option.bind_eq_some_iff.mp h
  obtain ⟨mode, hmode, h⟩ := Option.bind_eq_some_iff.mp h
  obtain ⟨repositoryId, hrepositoryId, h⟩ := Option.bind_eq_some_iff.mp h
  obtain ⟨parentTaskId, hparentTaskId, h⟩ := Option.bind_eq_some_iff.mp h
  obtain ⟨configVersion, hconfigVersion, h⟩ := Option.bind_eq_some_iff.mp h
  obtain ⟨executionSha, hexecutionSha, h⟩ := Option.bind_eq_some_iff.mp h
  obtain ⟨agentKind, hagentKind, h⟩ := Option.bind_eq_some_iff.mp h
  obtain ⟨title, htitle, h⟩ := Option.bind_eq_some_iff.mp h
  obtain ⟨description, hdescription, h⟩ := Option.bind_eq_some_iff.mp h
  obtain ⟨config, hconfig, h⟩ := Option.bind_eq_some_iff.mp h
  obtain ⟨baseline, hbaseline, h⟩ := Option.bind_eq_some_iff.mp h
  obtain ⟨budget, hbudget, h⟩ := Option.bind_eq_some_iff.mp h
  obtain ⟨delivery, hdelivery, h⟩ := Option.bind_eq_some_iff.mp h
  obtain ⟨source, hsource, h⟩ := Option.bind_eq_some_iff.mp h
  obtain rfl := Option.some.inj h
  constructor
  · refine bind_read (Json.strict_object (by simp [TaskSnapshot.members])) ?_
    refine bind_read (read_member hnodup rfl (stable_literalInt.reads hschemaVersion)) ?_
    refine bind_read (read_member hnodup rfl (stable_literal.reads hmode)) ?_
    refine bind_read (read_member hnodup rfl (stable_nonempty.reads hrepositoryId)) ?_
    refine bind_read
      (read_optional hnodup rfl (stable_nonempty.optional (present_str id) hparentTaskId)) ?_
    refine bind_read (read_member hnodup rfl (stable_positiveInt.reads hconfigVersion)) ?_
    refine bind_read (read_member hnodup rfl (stable_gitSha.reads hexecutionSha)) ?_
    refine bind_read (read_member hnodup rfl (stable_agentKind.reads hagentKind)) ?_
    refine bind_read (read_member hnodup rfl (stable_stringIn.reads htitle)) ?_
    refine bind_read (read_member hnodup rfl (stable_stringIn.reads hdescription)) ?_
    refine bind_read (read_member hnodup rfl (repositoryConfig_read hconfig).1) ?_
    refine bind_read (read_member hnodup rfl (baseline_read hbaseline).1) ?_
    refine bind_read (read_member hnodup rfl (taskBudget_read hbudget).1) ?_
    refine bind_read (read_member hnodup rfl (delivery_read hdelivery).1) ?_
    refine bind_read
      (read_optional hnodup rfl (stable_source.optional (present_object Source.members) hsource)) ?_
    rfl
  · refine bind_read (Json.strict_object (by simp [TaskSnapshot.members])) ?_
    refine bind_read (read_member hnodup rfl (stable_literalInt.reads hschemaVersion)) ?_
    refine bind_read (read_member hnodup rfl (stable_literal.reads hmode)) ?_
    refine bind_read (read_member hnodup rfl (accepts_nonempty.reads hrepositoryId)) ?_
    refine bind_read (read_optional hnodup rfl
      ((Accepts.of_check Accepts.string).optionalOrNull (present_str id) hparentTaskId)) ?_
    refine bind_read (read_member hnodup rfl (accepts_positiveInt.reads hconfigVersion)) ?_
    refine bind_read (read_member hnodup rfl (stable_gitSha.reads hexecutionSha)) ?_
    refine bind_read (read_member hnodup rfl (stable_agentKind.reads hagentKind)) ?_
    refine bind_read (read_member hnodup rfl (accepts_text.reads htitle)) ?_
    refine bind_read (read_member hnodup rfl (accepts_text.reads hdescription)) ?_
    refine bind_read (read_member hnodup rfl (repositoryConfig_read hconfig).2) ?_
    refine bind_read (read_member hnodup rfl (baseline_read hbaseline).2) ?_
    refine bind_read (read_member hnodup rfl (taskBudget_read hbudget).2) ?_
    refine bind_read (read_member hnodup rfl (delivery_read hdelivery).2) ?_
    refine bind_read (read_optional hnodup rfl
      (accepts_source.optionalOrNull (present_object Source.members) hsource)) ?_
    rfl

end Urls

end Shared

end AgentReliability
