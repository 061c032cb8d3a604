import Mathlib.Data.Rat.Defs
import Mathlib.Data.List.Nodup
/-!
# Schemas of JSON values

A schema reads a value of a format and returns what it denotes, or
nothing. Two services that share a format each have a schema for it, and
the one that sends writes what its own schema returned. The relation
`Accepts` says that the receiver reads back what was sent; it is proved
piece by piece, one rule for each way a schema is built.
-/

namespace AgentReliability

/-- A JSON value. `undefined` is what a member that is absent reads as. -/
inductive Json where
  | undefined
  | null
  | bool (b : Bool)
  | num (q : ℚ)
  | str (s : String)
  | arr (items : List Json)
  | obj (members : List (String × Json))

namespace Json

/-- `value[key]`. -/
def get (v : Json) (key : String) : Json :=
  match v with
  | .obj members => (members.lookup key).getD .undefined
  | _ => .undefined

/-- The object of the members that have a value. -/
def object (members : List (String × Option Json)) : Json :=
  .obj (members.filterMap fun m => m.2.map fun v => (m.1, v))

/-- An object, whatever its members. -/
def isObject : Json → Option Unit
  | .obj _ => some ()
  | _ => none

/-- An object without a member beyond `keys`. -/
def strict (keys : List String) : Json → Option Unit
  | .obj members => if members.all fun m => m.1 ∈ keys then some () else none
  | _ => none

theorem lookup_filterMap {members : List (String × Option Json)}
    (hnodup : (members.map Prod.fst).Nodup) (key : String) :
    (members.filterMap fun m => m.2.map fun v => (m.1, v)).lookup key =
      (members.lookup key).join := by
  induction members with
  | nil => rfl
  | cons m members ih =>
    obtain ⟨k, o⟩ := m
    simp only [List.map_cons, List.nodup_cons] at hnodup
    have hrest := ih hnodup.2
    by_cases hk : key = k
    · subst hk
      cases o with
      | some v => simp
      | none =>
        -- the key is not among the others
        have habsent : members.lookup key = none := by
          rw [List.lookup_eq_none_iff]
          intro m hm
          have : key ≠ m.1 := fun h => hnodup.1 (h ▸ List.mem_map_of_mem hm)
          simpa using this
        simp [hrest, habsent]
    · have hne : (key == k) = false := by simpa using hk
      cases o with
      | some v => simp [List.lookup_cons, hne, hrest]
      | none => simp [List.lookup_cons, hne, hrest]

/-- What a written member reads as. -/
theorem get_object {members : List (String × Option Json)}
    (hnodup : (members.map Prod.fst).Nodup) (key : String) :
    (object members).get key = ((members.lookup key).join).getD .undefined := by
  show ((members.filterMap _).lookup key).getD Json.undefined = _
  rw [lookup_filterMap hnodup]

@[simp] theorem isObject_object (members : List (String × Option Json)) :
    (object members).isObject = some () := rfl

theorem strict_object {keys : List String} {members : List (String × Option Json)}
    (h : ∀ key ∈ members.map Prod.fst, key ∈ keys) : (object members).strict keys = some () := by
  refine if_pos (List.all_eq_true.mpr fun m hm => ?_)
  obtain ⟨m', hm', hsome⟩ := List.mem_filterMap.mp hm
  obtain ⟨v, -, rfl⟩ := Option.map_eq_some_iff.mp hsome
  simpa using h m'.1 (List.mem_map_of_mem hm')

end Json

/-! ## Schemas -/

/-- A schema of values of `α`. -/
abbrev JsonSchema (α : Type) := Json → Option α

namespace JsonSchema

variable {α β : Type}

def string : JsonSchema String
  | .str s => some s
  | _ => none

/-- An integer. -/
def int : JsonSchema ℤ
  | .num q => if q.den = 1 then some q.num else none
  | _ => none

/-- The values that pass a check. -/
def check (p : α → Bool) (s : JsonSchema α) : JsonSchema α := fun v => (s v).filter p

theorem check_eq_some {p : α → Bool} {s : JsonSchema α} {v : Json} {a : α} :
    check p s v = some a ↔ s v = some a ∧ p a := Option.filter_eq_some_iff

/-- One of the values, by its name. -/
def oneOf (name : α → String) (values : List α) : JsonSchema α
  | .str s => values.find? fun a => name a = s
  | _ => none

def readAll (s : JsonSchema α) : List Json → Option (List α)
  | [] => some []
  | v :: vs => do
    let a ← s v
    let as ← readAll s vs
    pure (a :: as)

def array (s : JsonSchema α) : JsonSchema (List α)
  | .arr items => readAll s items
  | _ => none

/-- Absent, or of the schema. -/
def optional (s : JsonSchema α) : JsonSchema (Option α)
  | .undefined => some none
  | v => (s v).map some

/-- `null`, or of the schema. -/
def nullable (s : JsonSchema α) : JsonSchema (Option α)
  | .null => some none
  | v => (s v).map some

/-- Absent, `null`, or of the schema. -/
def optionalOrNull (s : JsonSchema α) : JsonSchema (Option α)
  | .undefined => some none
  | .null => some none
  | v => (s v).map some

/-- Absent for a default, or of the schema. -/
def orDefault (default : α) (s : JsonSchema α) : JsonSchema α
  | .undefined => some default
  | v => s v

/-! ## What the receiver accepts of the sender -/

/-- **The receiver accepts what the sender writes**, and reads the value the
sender had. -/
structure Accepts (sender : JsonSchema α) (write : α → Json) (receiver : JsonSchema α) : Prop where
  reads : ∀ {v a}, sender v = some a → receiver (write a) = some a

/-- A schema that reads back what it returned. -/
abbrev Stable (s : JsonSchema α) (write : α → Json) : Prop := Accepts s write s

/-- One member more of a record is read. -/
theorem bind_read {x : Option α} {f : α → Option β} {a : α} {b : β} (h : x = some a)
    (hf : f a = some b) : (x >>= f) = some b := by
  rw [h]
  exact hf

section Members

variable {members : List (String × Option Json)} {key : String} {r : JsonSchema α} {a : α}

/-- A member of an object that was written, read by a schema. -/
theorem read_optional {o : Option Json} (hnodup : (members.map Prod.fst).Nodup)
    (hkey : members.lookup key = some o) (h : r (o.getD .undefined) = some a) :
    r ((Json.object members).get key) = some a := by
  rw [Json.get_object hnodup, hkey]
  exact h

theorem read_member {v : Json} (hnodup : (members.map Prod.fst).Nodup)
    (hkey : members.lookup key = some (some v)) (h : r v = some a) :
    r ((Json.object members).get key) = some a :=
  read_optional hnodup hkey h

end Members

/-- A value that is written is not absent and not `null`. -/
def Present (write : α → Json) : Prop := ∀ a, write a ≠ .undefined ∧ write a ≠ .null

theorem Accepts.string : Accepts string .str string := ⟨fun _ => rfl⟩

theorem Accepts.int : Accepts int (fun n => .num n) int := ⟨fun _ => rfl⟩

theorem Accepts.check {s r : JsonSchema α} {write : α → Json} {p q : α → Bool}
    (h : Accepts s write r) (hpq : ∀ a, p a → q a) : Accepts (check p s) write (check q r) := by
  refine ⟨fun {v a} ha => ?_⟩
  obtain ⟨hs, hp⟩ := check_eq_some.mp ha
  exact check_eq_some.mpr ⟨h.reads hs, hpq a hp⟩

/-- A check the receiver does not make. -/
theorem Accepts.of_check {s r : JsonSchema α} {write : α → Json} {p : α → Bool}
    (h : Accepts s write r) : Accepts (JsonSchema.check p s) write r :=
  ⟨fun ha => h.reads (check_eq_some.mp ha).1⟩

theorem Accepts.oneOf {name : α → String} {values : List α} {r : JsonSchema α}
    (h : ∀ a ∈ values, r (.str (name a)) = some a) :
    Accepts (oneOf name values) (fun a => .str (name a)) r := by
  refine ⟨fun {v a} ha => ?_⟩
  cases v with
  | str s => exact h a (List.mem_of_find?_eq_some ha)
  | _ => cases ha

theorem Stable.check {s : JsonSchema α} {write : α → Json} {p : α → Bool} (h : Stable s write) :
    Stable (JsonSchema.check p s) write := Accepts.check h fun _ hp => hp

theorem Accepts.readAll {s r : JsonSchema α} {write : α → Json} (h : Accepts s write r)
    {vs : List Json} {as : List α} (has : readAll s vs = some as) :
    readAll r (as.map write) = some as := by
  induction vs generalizing as with
  | nil => cases has; rfl
  | cons v vs ih =>
    simp only [JsonSchema.readAll, Option.bind_eq_bind, Option.bind_eq_some_iff, Option.pure_def,
      Option.some.injEq] at has
    obtain ⟨a, ha, as', has', rfl⟩ := has
    simp only [List.map_cons, JsonSchema.readAll, h.reads ha, ih has']
    rfl

theorem Accepts.array {s r : JsonSchema α} {write : α → Json} (h : Accepts s write r) :
    Accepts (array s) (fun as => .arr (as.map write)) (array r) := by
  refine ⟨fun {v as} has => ?_⟩
  cases v with
  | arr items => exact h.readAll has
  | _ => cases has

theorem optional_eq_some {s : JsonSchema α} {v : Json} {a : α}
    (h : JsonSchema.optional s v = some (some a)) : s v = some a := by
  cases v with
  | undefined => cases h
  | _ => simpa [JsonSchema.optional] using h

/-- How an optional member is read back. -/
theorem Accepts.optional {s r : JsonSchema α} {write : α → Json} (h : Accepts s write r)
    (hwrite : Present write) {v : Json} {o : Option α} (ho : JsonSchema.optional s v = some o) :
    JsonSchema.optional r ((o.map write).getD .undefined) = some o := by
  cases o with
  | none => rfl
  | some a =>
    have hread := h.reads (optional_eq_some ho)
    have hpresent := (hwrite a).1
    show JsonSchema.optional r (write a) = some (some a)
    cases hw : write a with
    | undefined => exact absurd hw hpresent
    | _ => rw [hw] at hread; simp [JsonSchema.optional, hread]

theorem Accepts.optionalOrNull {s r : JsonSchema α} {write : α → Json} (h : Accepts s write r)
    (hwrite : Present write) {v : Json} {o : Option α} (ho : JsonSchema.optional s v = some o) :
    JsonSchema.optionalOrNull r ((o.map write).getD .undefined) = some o := by
  cases o with
  | none => rfl
  | some a =>
    have hread := h.reads (optional_eq_some ho)
    obtain ⟨hundefined, hnull⟩ := hwrite a
    show JsonSchema.optionalOrNull r (write a) = some (some a)
    cases hw : write a with
    | undefined => exact absurd hw hundefined
    | null => exact absurd hw hnull
    | _ => rw [hw] at hread; simp [JsonSchema.optionalOrNull, hread]

/-- A default is written like any other value. The receiver's schema has to
take it. -/
theorem Accepts.orDefault {s r : JsonSchema α} {write : α → Json} {d d' : α} (h : Accepts s write r)
    (hwrite : Present write) (hd : r (write d) = some d) :
    Accepts (orDefault d s) write (orDefault d' r) := by
  refine ⟨fun {v a} ha => ?_⟩
  have hread : r (write a) = some a := by
    cases v with
    | undefined => cases ha; exact hd
    | _ => exact h.reads ha
  have hpresent := (hwrite a).1
  cases hw : write a with
  | undefined => exact absurd hw hpresent
  | _ => rw [hw] at hread; exact hread

end JsonSchema

end AgentReliability
