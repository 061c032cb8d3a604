import AgentReliability.Common.Routing
import Mathlib.Tactic.Common
/-!
# The authorization guard and the routes it protects

`LocalAuthGuard.canActivate` runs before every handler. It classifies the
request by tests of its own on the path: two exact paths, one prefix, one
regular expression. The router has classified the same path by the table
of routes, in either case of the letters. A request on which the two
disagree is served under the rule of another class of routes.
-/

namespace AgentReliability

namespace ControlPlane

open Routing

/-! ## The table of routes -/

/-- The controllers of the application module, in its order. -/
inductive Controller where
  | notification | repository | credentials | taskDraft | session | health | task | run | sse
  | approval | internal | fixture | evaluation | githubWebhook
  deriving DecidableEq, Repr

def getRoute (controller : Controller) (path : String) : Route Controller :=
  { method := .get, path := segments path, controller }

def postRoute (controller : Controller) (path : String) : Route Controller :=
  { method := .post, path := segments path, controller }

/-- The routes, controller by controller and in the order of the handlers. -/
def routes : List (Route Controller) := [
  getRoute .notification "api/notifications",
  postRoute .notification "api/notifications/:id/read",
  postRoute .repository "api/repositories/:id/check",
  getRoute .repository "api/repositories",
  getRoute .repository "api/repositories/:id",
  postRoute .repository "api/repositories",
  postRoute .repository "api/repositories/:id/configs",
  postRoute .credentials "api/credentials",
  postRoute .taskDraft "api/drafts",
  getRoute .taskDraft "api/drafts/:id",
  postRoute .taskDraft "api/drafts/import-pr",
  postRoute .taskDraft "api/drafts/:id/confirm",
  postRoute .taskDraft "api/drafts/workflow-jobs",
  postRoute .taskDraft "api/drafts/job-log",
  postRoute .session "api/session",
  getRoute .health "api/health",
  postRoute .task "api/tasks",
  getRoute .task "api/tasks",
  getRoute .task "api/tasks/:id",
  postRoute .run "api/runs/:id/pause",
  postRoute .run "api/runs/:id/cancel",
  postRoute .run "api/runs/:id/resume",
  getRoute .run "api/runs/:id",
  getRoute .run "api/runs/:id/events",
  getRoute .run "api/runs/:id/artifacts/:artifactId",
  getRoute .run "api/runs/:id/judge",
  getRoute .run "api/runs/:id/diff",
  getRoute .sse "api/runs/:id/events/stream",
  postRoute .approval "api/approvals/:id/decide",
  postRoute .approval "api/approvals/:id/retry-pr",
  getRoute .internal "internal/attempts/:id/active",
  postRoute .internal "internal/attempts/:id/evidence",
  postRoute .internal "internal/attempts/claim",
  postRoute .internal "internal/attempts/:id/heartbeat",
  postRoute .internal "internal/attempts/:id/complete",
  postRoute .internal "internal/runs/:runId/checkpoints",
  getRoute .internal "internal/checkpoints/:id",
  postRoute .internal "internal/attempts/:id/phase",
  postRoute .internal "internal/attempts/:id/pause",
  postRoute .internal "internal/attempts/:id/environment",
  postRoute .internal "internal/runs/:runId/budget/reserve",
  postRoute .internal "internal/runs/:runId/budget/settle",
  getRoute .fixture "api/fixtures",
  postRoute .evaluation "api/evaluations",
  postRoute .evaluation "api/evaluations/:id/results",
  postRoute .evaluation "api/evaluations/:id/finish",
  getRoute .evaluation "api/evaluations",
  getRoute .evaluation "api/evaluations/:id",
  postRoute .githubWebhook "api/github/webhook"]

/-- The controllers that a public demo keeps for the access token. -/
def personal : List Controller := [.repository, .credentials, .taskDraft, .session]

/-! ## The guard -/

/-- What the guard reads of a request. -/
structure AuthRequest where
  method : HttpMethod
  path : String
  origin : Option String := none
  authorization : Option String := none
  cookie : Option String := none

/-- What the guard reads of its process: two variables of the environment
and the access token of the credential store. -/
structure AuthEnv where
  arpPublicDemo : Option String := none
  arpWebOrigin : Option String := none
  accessToken : String

inductive GuardException where
  | forbidden (message : String)
  | unauthorized (message : String)
  deriving DecidableEq, Repr

def tokenMatches (actual expected : String) : Bool :=
  actual ≠ "" && expected ≠ "" && actual.utf8ByteSize = expected.utf8ByteSize &&
    actual.toUTF8.data = expected.toUTF8.data

/-- An empty header is falsy. -/
def isLocalOrigin (origin : Option String) (allowed : String) : Bool :=
  origin = none || origin = some "" || origin = some allowed

def startsWith (start text : String) : Bool := start.toList <+: text.toList

namespace AuthRequest

variable (req : AuthRequest)

/-- Where the router dispatches the request. -/
def controller? : Option Controller := dispatch? req.method req.path.toList routes

/-- `authorization?.replace(/^Bearer /, '') ?? ''`. -/
def bearer : String :=
  match req.authorization with
  | none => ""
  | some value =>
    if startsWith "Bearer " value then String.ofList (value.toList.drop 7) else value

/-- The first cookie named `arp_session`. -/
def arpSession : String :=
  match req.cookie with
  | none => ""
  | some value =>
    let cookies := (value.toList.splitOn ';').map fun s => String.ofList (StringNumber.trim s)
    match cookies.find? (startsWith "arp_session=") with
    | none => ""
    | some found => String.ofList (found.toList.drop 12)

/-- `/^\/(internal|api\/(repositories|credentials|drafts|session))/`. -/
def isPrivatePath : Bool :=
  ["/internal", "/api/repositories", "/api/credentials", "/api/drafts", "/api/session"].any
    fun start => startsWith start req.path

end AuthRequest

section Guard

-- `createHmac('sha256', key).update(data).digest('hex')`
variable (hmac : String → String → String)

def AuthEnv.isPublicDemo (env : AuthEnv) : Bool := env.arpPublicDemo = some "true"

/-- `process.env.ARP_WEB_ORIGIN || 'http://localhost:3000'`. -/
def AuthEnv.webOrigin (env : AuthEnv) : String :=
  match env.arpWebOrigin with
  | none => "http://localhost:3000"
  | some "" => "http://localhost:3000"
  | some origin => origin

def AuthEnv.workerToken (env : AuthEnv) : String := hmac env.accessToken "arp-worker"

/-- `LocalAuthGuard.canActivate`. -/
def canActivate (env : AuthEnv) (req : AuthRequest) : Except GuardException Bool :=
  if req.path = "/api/health" ∨ req.path = "/health" then .ok true
  else if env.isPublicDemo ∧ ¬ req.isPrivatePath then .ok true
  else if req.path = "/api/github/webhook" then .ok true
  else if ¬ isLocalOrigin req.origin env.webOrigin then
    .error (.forbidden "Untrusted browser origin")
  else if startsWith "/internal/" req.path then
    if tokenMatches req.bearer (env.workerToken hmac) then .ok true
    else .error (.unauthorized "Worker authorization required")
  else if ¬ tokenMatches req.bearer env.accessToken ∧ ¬ tokenMatches req.arpSession env.accessToken
  then .error (.unauthorized "Local access token required")
  else .ok true

/-! ## What the guard owes -/

/-- **A worker's route asks for the worker token, and in a public demo a
personal route asks for the access token.** -/
structure Guarded (env : AuthEnv) (req : AuthRequest) : Prop where
  worker : req.controller? = some .internal → canActivate hmac env req = .ok true →
    req.bearer = env.workerToken hmac
  owner : env.isPublicDemo → (∃ c ∈ personal, req.controller? = some c) →
    canActivate hmac env req = .ok true →
    req.bearer = env.accessToken ∨ req.arpSession = env.accessToken

/-- A request from the browser's own origin with the access token. -/
def FromOwner (env : AuthEnv) (req : AuthRequest) : Prop :=
  isLocalOrigin req.origin env.webOrigin ∧
    (tokenMatches req.bearer env.accessToken ∨ tokenMatches req.arpSession env.accessToken)

/-- A protected route is spelled as the guard spells it, or the request
brings the token the route is to ask for, or nothing the guard would take in
its place. -/
structure Recognised (env : AuthEnv) (req : AuthRequest) : Prop where
  worker : req.controller? = some .internal → startsWith "/internal/" req.path ∨
    req.bearer = env.workerToken hmac ∨ ¬ env.isPublicDemo ∧ ¬ FromOwner env req
  owner : env.isPublicDemo → (∃ c ∈ personal, req.controller? = some c) →
    req.isPrivatePath ∨ req.bearer = env.accessToken ∨ req.arpSession = env.accessToken

theorem eq_of_tokenMatches {actual expected : String} (h : tokenMatches actual expected) :
    actual = expected := by
  simp only [tokenMatches, Bool.and_eq_true, decide_eq_true_eq] at h
  exact String.toByteArray_inj.mp (ByteArray.ext h.2)

end Guard

/-! ## The paths of the protected routes -/

theorem head_of_internal : ∀ r ∈ routes, r.controller = .internal →
    r.path.head? = some (.literal "internal".toList) ∧ 2 ≤ r.path.length := by
  decide +kernel

def personalNames : List String := ["repositories", "credentials", "drafts", "session"]

theorem head_of_personal : ∀ r ∈ routes, r.controller ∈ personal →
    ∃ name ∈ personalNames, r.path.take 2 = [.literal "api".toList, .literal name.toList] := by
  decide +kernel

/-- A spelling of a word starts with its first letter, in some case. -/
theorem exists_cons_of_spelled {spelled cs : List Char} {c : Char}
    (h : spelled.map Char.toLower = (c :: cs).map Char.toLower) :
    ∃ d ds, spelled = d :: ds ∧ d.toLower = c.toLower := by
  cases spelled with
  | nil => cases h
  | cons d ds =>
    simp only [List.map_cons, List.cons.injEq] at h
    exact ⟨d, ds, rfl, h.1⟩

theorem length_of_spelled {spelled text : List Char}
    (h : spelled.map Char.toLower = text.map Char.toLower) : spelled.length = text.length := by
  simpa using congrArg List.length h

variable {req : AuthRequest}

/-- **The path of a worker's route** spells `internal` between two
slashes. -/
theorem path_of_internal (h : req.controller? = some .internal) :
    ∃ spelled rest, req.path.toList = '/' :: (spelled ++ '/' :: rest) ∧
      spelled.map Char.toLower = "internal".toList.map Char.toLower := by
  obtain ⟨r, hr, hcontroller, hmatch⟩ := exists_route_of_dispatch h
  obtain ⟨hhead, hlength⟩ := head_of_internal r hr hcontroller
  match hpath : r.path, hhead, hlength with
  | first :: second :: segs, hhead, _ =>
    obtain rfl : first = .literal "internal".toList := by simpa using hhead
    rw [hpath] at hmatch
    obtain ⟨spelled, tail, hreq, hspelled, htail⟩ := matchPath_literal hmatch
    obtain ⟨rest, rfl⟩ := exists_cons_of_matchPath htail
    exact ⟨spelled, rest, hreq, hspelled⟩

/-- **The path of a personal route** spells `api` and the route's name. -/
theorem path_of_personal (h : ∃ c ∈ personal, req.controller? = some c) :
    ∃ name ∈ personalNames, ∃ api spelled rest,
      req.path.toList = '/' :: (api ++ '/' :: (spelled ++ rest)) ∧
      api.map Char.toLower = "api".toList.map Char.toLower ∧
      spelled.map Char.toLower = name.toList.map Char.toLower := by
  obtain ⟨c, hc, hdispatch⟩ := h
  obtain ⟨r, hr, hcontroller, hmatch⟩ := exists_route_of_dispatch hdispatch
  obtain ⟨name, hname, htake⟩ := head_of_personal r hr (hcontroller ▸ hc)
  match hpath : r.path, htake with
  | first :: second :: segs, htake =>
    obtain ⟨rfl, rfl⟩ : first = .literal "api".toList ∧ second = .literal name.toList := by
      simpa using htake
    rw [hpath] at hmatch
    obtain ⟨api, tail, hreq, hapi, htail⟩ := matchPath_literal hmatch
    obtain ⟨spelled, rest, rfl, hspelled, -⟩ := matchPath_literal htail
    exact ⟨name, hname, api, spelled, rest, hreq, hapi, hspelled⟩

/-- The letter after the first slash. -/
theorem letter_of_internal (h : req.controller? = some .internal) :
    ∃ d, req.path.toList[1]? = some d ∧ d.toLower = 'i' := by
  obtain ⟨spelled, rest, hpath, hspelled⟩ := path_of_internal h
  obtain ⟨d, ds, rfl, hd⟩ := exists_cons_of_spelled hspelled
  exact ⟨d, by rw [hpath]; rfl, hd⟩

/-- The letters after the first two slashes. -/
theorem letters_of_personal (h : ∃ c ∈ personal, req.controller? = some c) :
    (∃ d, req.path.toList[1]? = some d ∧ d.toLower = 'a') ∧
      ∃ d, req.path.toList[5]? = some d ∧ d.toLower ∈ ['r', 'c', 'd', 's'] := by
  obtain ⟨name, hname, api, spelled, rest, hpath, hapi, hspelled⟩ := path_of_personal h
  have hlength : api.length = 3 := length_of_spelled hapi
  have hletter : ∀ name ∈ personalNames, ∃ c cs, name.toList = c :: cs ∧
      c.toLower ∈ ['r', 'c', 'd', 's'] := by
    intro name hname
    simp only [personalNames, List.mem_cons, List.not_mem_nil, or_false] at hname
    obtain rfl | rfl | rfl | rfl := hname
    all_goals exact ⟨_, _, rfl, by decide⟩
  obtain ⟨c, cs, hname', hc⟩ := hletter name hname
  rw [hname'] at hspelled
  obtain ⟨d, ds, rfl, hd⟩ := exists_cons_of_spelled hspelled
  obtain ⟨a, as, rfl, ha⟩ := exists_cons_of_spelled hapi
  refine ⟨⟨a, by rw [hpath]; rfl, ha⟩, d, ?_, hd ▸ hc⟩
  rw [hpath]
  match as, hlength with
  | [x, y], _ => rfl

/-- A path with another letter at some place does not start so. -/
theorem not_startsWith {start path : String} {k : ℕ} {c d : Char}
    (hstart : start.toList[k]? = some c) (hpath : path.toList[k]? = some d)
    (hne : c ≠ d) : startsWith start path = false := by
  simp only [startsWith, decide_eq_false_iff_not]
  rintro ⟨rest, hrest⟩
  have hk : k < start.toList.length := (List.getElem?_eq_some_iff.mp hstart).1
  have hat : path.toList[k]? = start.toList[k]? := by
    rw [← hrest, List.getElem?_append_left hk]
  rw [hpath, hstart] at hat
  exact hne (Option.some.inj hat).symm

/-- Nor is it that path. -/
theorem ne_of_letter {start path : String} {k : ℕ} {c d : Char}
    (hstart : start.toList[k]? = some c) (hpath : path.toList[k]? = some d) (hne : c ≠ d) :
    path ≠ start := by
  rintro rfl
  rw [hpath] at hstart
  exact hne (Option.some.inj hstart).symm

/-- On the worker's routes the regular expression and the prefix agree. -/
theorem isPrivatePath_of_internal (h : req.controller? = some .internal) :
    req.isPrivatePath = startsWith "/internal/" req.path := by
  obtain ⟨d, hletter, hd⟩ := letter_of_internal h
  have hapi : ∀ start : String, start.toList[1]? = some 'a' → startsWith start req.path = false :=
    fun start hstart => not_startsWith hstart hletter (by rintro rfl; exact absurd hd (by decide))
  obtain ⟨spelled, rest, hpath, hspelled⟩ := path_of_internal h
  have hlength : "internal".toList.length = spelled.length := (length_of_spelled hspelled).symm
  have hprefix : startsWith "/internal" req.path = startsWith "/internal/" req.path := by
    have hshort : "/internal".toList <+: req.path.toList ↔ spelled = "internal".toList := by
      rw [hpath, ← prefix_append_iff hlength]
      exact List.cons_prefix_cons.trans (and_iff_right rfl)
    have hlong : "/internal/".toList <+: req.path.toList ↔ spelled = "internal".toList := by
      constructor
      · intro hlong
        exact hshort.mp (List.IsPrefix.trans ⟨['/'], rfl⟩ hlong)
      · intro hs
        rw [hpath, hs]
        exact ⟨rest, rfl⟩
    simp only [startsWith, hshort, hlong]
  simp only [AuthRequest.isPrivatePath, List.any_cons, List.any_nil, hprefix,
    hapi "/api/repositories" rfl, hapi "/api/credentials" rfl, hapi "/api/drafts" rfl,
    hapi "/api/session" rfl, Bool.or_false]

/-! ## Where it meets them -/

section Guard

variable (hmac : String → String → String) {env : AuthEnv}

/-- **The guard on a worker's route.** Spelled in another case it is a route
of the browser, or of the public demo. -/
theorem canActivate_internal (h : req.controller? = some .internal) :
    canActivate hmac env req = .ok true ↔
      if startsWith "/internal/" req.path then
        isLocalOrigin req.origin env.webOrigin ∧ tokenMatches req.bearer (env.workerToken hmac)
      else env.isPublicDemo ∨ FromOwner env req := by
  obtain ⟨d, hletter, hd⟩ := letter_of_internal h
  have hne : ∀ {start : String} {c : Char}, start.toList[1]? = some c → c.toLower ≠ 'i' →
      req.path ≠ start :=
    fun hstart hc => ne_of_letter hstart hletter fun heq => hc (heq ▸ hd)
  have hhealth : ¬ (req.path = "/api/health" ∨ req.path = "/health") :=
    not_or.mpr ⟨hne rfl (by decide), hne rfl (by decide)⟩
  have hwebhook : req.path ≠ "/api/github/webhook" := hne rfl (by decide)
  simp only [canActivate, if_neg hhealth, if_neg hwebhook, isPrivatePath_of_internal h, FromOwner]
  cases startsWith "/internal/" req.path <;> cases env.isPublicDemo <;>
    cases isLocalOrigin req.origin env.webOrigin <;>
    cases tokenMatches req.bearer (env.workerToken hmac) <;>
    cases tokenMatches req.bearer env.accessToken <;>
    cases tokenMatches req.arpSession env.accessToken <;> simp

/-- **The guard on a personal route of a public demo.** -/
theorem canActivate_personal (hdemo : env.isPublicDemo)
    (h : ∃ c ∈ personal, req.controller? = some c) :
    canActivate hmac env req = .ok true ↔ ¬ req.isPrivatePath ∨ FromOwner env req := by
  obtain ⟨⟨a, ha, halower⟩, d, hletter, hd⟩ := letters_of_personal h
  have hne : ∀ {start : String} {c : Char}, start.toList[5]? = some c →
      c.toLower ∉ ['r', 'c', 'd', 's'] → req.path ≠ start :=
    fun hstart hc => ne_of_letter hstart hletter fun heq => hc (heq ▸ hd)
  have hhealth : ¬ (req.path = "/api/health" ∨ req.path = "/health") := by
    refine not_or.mpr ⟨hne rfl (by decide), ?_⟩
    exact ne_of_letter (k := 1) rfl ha (by rintro rfl; exact absurd halower (by decide))
  have hwebhook : req.path ≠ "/api/github/webhook" := hne rfl (by decide)
  have hinternal : startsWith "/internal/" req.path = false :=
    not_startsWith (k := 1) rfl ha (by rintro rfl; exact absurd halower (by decide))
  simp only [canActivate, if_neg hhealth, if_neg hwebhook, hinternal, hdemo, FromOwner]
  cases req.isPrivatePath <;> cases isLocalOrigin req.origin env.webOrigin <;>
    cases tokenMatches req.bearer env.accessToken <;>
    cases tokenMatches req.arpSession env.accessToken <;> simp

theorem FromOwner.token (h : FromOwner env req) :
    req.bearer = env.accessToken ∨ req.arpSession = env.accessToken :=
  h.2.imp eq_of_tokenMatches eq_of_tokenMatches

/-- **The guard meets its purpose on exactly the recognised requests.** -/
theorem guarded_iff_recognised : Guarded hmac env req ↔ Recognised hmac env req := by
  constructor
  · intro h
    refine ⟨fun hroute => ?_, fun hdemo hroute => ?_⟩
    · have hserved : canActivate hmac env req = .ok true ↔ _ := canActivate_internal hmac hroute
      by_cases hspelled : startsWith "/internal/" req.path = true
      · exact .inl hspelled
      · rw [if_neg hspelled] at hserved
        by_cases hopen : env.isPublicDemo = true ∨ FromOwner env req
        · exact .inr (.inl (h.worker hroute (hserved.mpr hopen)))
        · exact .inr (.inr (not_or.mp hopen))
    · have hserved := canActivate_personal hmac hdemo hroute
      by_cases hprivate : req.isPrivatePath = true
      · exact .inl hprivate
      · exact .inr (h.owner hdemo hroute (hserved.mpr (.inl hprivate)))
  · intro h
    refine ⟨fun hroute hok => ?_, fun hdemo hroute hok => ?_⟩
    · have hserved := (canActivate_internal hmac hroute).mp hok
      by_cases hspelled : startsWith "/internal/" req.path = true
      · rw [if_pos hspelled] at hserved
        exact eq_of_tokenMatches hserved.2
      · rw [if_neg hspelled] at hserved
        obtain hworker | hclosed := (h.worker hroute).resolve_left hspelled
        · exact hworker
        · exact absurd hserved (not_or.mpr hclosed)
    · obtain hprivate | howner := h.owner hdemo hroute
      · have hserved := (canActivate_personal hmac hdemo hroute).mp hok
        exact (hserved.resolve_left (not_not.mpr hprivate)).token
      · exact howner

/-- A protected route in the guard's own spelling is guarded, whatever the
headers. -/
theorem guarded_of_isPrivatePath
    (h : req.controller? = some .internal ∨ (∃ c ∈ personal, req.controller? = some c) →
      req.isPrivatePath) : Guarded hmac env req :=
  (guarded_iff_recognised hmac).mpr
    ⟨fun hroute => .inl (isPrivatePath_of_internal hroute ▸ h (.inl hroute)),
      fun _ hroute => .inl (h (.inr hroute))⟩

end Guard

/-! ## A worker's route in capitals -/

def demoEnv : AuthEnv where
  arpPublicDemo := some "true"
  accessToken := "0f1e2d3c4b5a69788796a5b4c3d2e1f00f1e2d3c4b5a69788796a5b4c3d2e1f0"

/-- The digest of `arp-worker` under that access token. -/
def demoHmac : String → String → String := fun _ _ =>
  "6bb53281b1854c352531df3f7d4ca69a5185726117d5082b683756f05f601d19"

/-- **A claim of an attempt without any token**, in a public demo. -/
theorem not_guarded_capital : ¬ ∀ req : AuthRequest, Guarded demoHmac demoEnv req := by
  intro h
  have hworker := (h { method := .post, path := "/Internal/attempts/claim" }).worker
    (by decide +kernel) (by decide +kernel)
  exact absurd hworker (by decide +kernel)

end ControlPlane

end AgentReliability
