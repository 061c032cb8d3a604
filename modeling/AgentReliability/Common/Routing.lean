import AgentReliability.Common.StringNumber
/-!
# Routes and the paths they match

The router of an HTTP framework with its default options: the literals of
a route match the path of a request in either case, a parameter takes what
stands between two slashes, and one slash more at the end is no
difference. The first route that matches and has the method is the one
that is served.
-/

namespace AgentReliability

namespace Routing

/-- A piece of a route's path, between two slashes. -/
inductive Segment where
  | literal (text : List Char)
  | param (name : List Char)
  deriving DecidableEq, Repr

/-- `a/:b/c`, taken apart. -/
def segments (path : String) : List Segment :=
  (path.toList.splitOn '/').map fun
    | ':' :: name => .param name
    | text => .literal text

/-- Equality of a regular expression with the flag `i`, on ASCII letters. -/
def eqIgnoreCase (a b : List Char) : Bool := a.map Char.toLower = b.map Char.toLower

/-- `^/a/([^/]+)/c/?$`, and what the parameters take. -/
def matchPath : List Segment → List Char → Option (List (List Char))
  | [], rest => if rest = [] ∨ rest = ['/'] then some [] else none
  | .literal text :: segs, '/' :: rest =>
    if eqIgnoreCase (rest.takeWhile (· ≠ '/')) text then matchPath segs (rest.dropWhile (· ≠ '/'))
    else none
  | .param _ :: segs, '/' :: rest =>
    let taken := rest.takeWhile (· ≠ '/')
    if taken = [] then none
    else (matchPath segs (rest.dropWhile (· ≠ '/'))).map fun params => taken :: params
  | _ :: _, _ => none

/-! ## The table -/

inductive HttpMethod where
  | get | head | post | put | patch | delete | options
  | other (name : String)
  deriving DecidableEq, Repr

structure Route (κ : Type) where
  method : HttpMethod
  path : List Segment
  controller : κ

/-- A route for GET serves HEAD too. -/
def Route.handles {κ : Type} (r : Route κ) (method : HttpMethod) : Bool :=
  r.method = method || (method = .head && r.method = .get)

def percentBytes : List Char → Option (List UInt8)
  | [] => some []
  | '%' :: a :: b :: rest => do
    let high ← StringNumber.digit? a
    let low ← StringNumber.digit? b
    let bytes ← percentBytes rest
    pure (UInt8.ofNat (16 * high + low) :: bytes)
  | '%' :: _ => none
  | c :: rest => (percentBytes rest).map fun bytes => String.utf8EncodeChar c ++ bytes

/-- `decodeURIComponent` does not throw. -/
def decodable (text : List Char) : Bool :=
  match percentBytes text with
  | some bytes => (String.fromUTF8? ⟨bytes.toArray⟩).isSome
  | none => false

/-- The controller a request is dispatched to. A parameter that cannot be
decoded ends the search: the request is a bad one. -/
def dispatch? {κ : Type} (method : HttpMethod) (path : List Char) : List (Route κ) → Option κ
  | [] => none
  | r :: rs =>
    match matchPath r.path path with
    | none => dispatch? method path rs
    | some params =>
      if params.all decodable then
        if r.handles method then some r.controller else dispatch? method path rs
      else none

/-! ## What a match says of the path -/

variable {κ : Type} {method : HttpMethod} {path : List Char}

/-- A dispatched request matches a route of the table. -/
theorem exists_route_of_dispatch {routes : List (Route κ)} {k : κ}
    (h : dispatch? method path routes = some k) :
    ∃ r ∈ routes, r.controller = k ∧ (matchPath r.path path).isSome := by
  induction routes with
  | nil => cases h
  | cons r rs ih =>
    have hlater : dispatch? method path rs = some k → ∃ r' ∈ r :: rs, r'.controller = k ∧
        (matchPath r'.path path).isSome := by
      intro hrs
      obtain ⟨r', hmem, hr'⟩ := ih hrs
      exact ⟨r', List.mem_cons_of_mem r hmem, hr'⟩
    unfold dispatch? at h
    split at h
    · exact hlater h
    · rename_i params hmatch
      split at h
      · split at h
        · cases h
          exact ⟨r, List.mem_cons_self, rfl, by rw [hmatch]; rfl⟩
        · exact hlater h
      · cases h

/-- **A literal of a match** stands in the path after a slash, in some case,
and the rest of the path matches the rest of the route. -/
theorem matchPath_literal {text : List Char} {segs : List Segment}
    (h : (matchPath (.literal text :: segs) path).isSome) :
    ∃ spelled rest, path = '/' :: (spelled ++ rest) ∧
      spelled.map Char.toLower = text.map Char.toLower ∧ (matchPath segs rest).isSome := by
  unfold matchPath at h
  split at h
  · rename_i heq
    cases heq
  · rename_i text' segs' rest heq
    cases heq
    split at h
    · rename_i hsame
      refine ⟨rest.takeWhile (· ≠ '/'), rest.dropWhile (· ≠ '/'), ?_,
        by simpa [eqIgnoreCase] using hsame, h⟩
      rw [List.takeWhile_append_dropWhile]
    · cases h
  · rename_i heq
    cases heq
  · cases h

/-- What matches one more segment goes on with a slash. -/
theorem exists_cons_of_matchPath {seg : Segment} {segs : List Segment}
    (h : (matchPath (seg :: segs) path).isSome) : ∃ rest, path = '/' :: rest := by
  unfold matchPath at h
  split at h
  · rename_i heq
    cases heq
  · exact ⟨_, rfl⟩
  · exact ⟨_, rfl⟩
  · cases h

/-- Where two spellings have one length, a text starts with the one if it is
the other. -/
theorem prefix_append_iff {a b rest : List Char} (h : a.length = b.length) :
    a <+: b ++ rest ↔ b = a := by
  constructor
  · intro hp
    have hba : b <+: b ++ rest := List.prefix_append b rest
    exact (List.prefix_of_prefix_length_le hp hba h.le).eq_of_length h |>.symm
  · rintro rfl
    exact List.prefix_append b rest

end Routing

end AgentReliability
