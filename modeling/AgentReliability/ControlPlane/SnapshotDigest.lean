import AgentReliability.Common.JsonString
import AgentReliability.Common.PrefixCode
import Mathlib.Data.List.Lex
import Mathlib.Data.List.Sort
/-!
# The digest of a snapshot

`canonical` writes a JSON value with the keys of its objects in order, and
`digestSnapshot` is the SHA-256 of that text. Two values have one canonical
text exactly if one becomes the other when members of its objects change
places: a text is read back piece by piece, and the sort forgets the order
the members were in.
-/

namespace AgentReliability

/-- A JSON value, with finite numbers from `ν`. The two zeros are one
number. -/
inductive JsonValue (ν : Type) where
  | null
  | bool (b : Bool)
  | number (n : ν)
  | string (s : JsString)
  | array (items : List (JsonValue ν))
  | object (members : List (JsString × JsonValue ν))

/-- `Number::toString`, of finite numbers: each has a text of its own, and it
is made of the marks of a numeral. -/
structure NumberFormat (ν : Type) where
  text : ν → List Char
  injective : Function.Injective text
  ne_nil : ∀ n, text n ≠ []
  numeral : ∀ n, ∀ c ∈ text n, c ∈ "0123456789-+.e".toList

namespace JsonValue

variable {ν : Type}

/-- Induction on a value: through the items of an array and the members of
an object. -/
theorem induct {P : JsonValue ν → Prop} (null : P .null) (bool : ∀ b, P (.bool b))
    (number : ∀ n, P (.number n)) (string : ∀ s, P (.string s))
    (array : ∀ items, (∀ v ∈ items, P v) → P (.array items))
    (object : ∀ members, (∀ m ∈ members, P m.2) → P (.object members)) : ∀ v, P v
  | .null => null
  | .bool b => bool b
  | .number n => number n
  | .string s => string s
  | .array items => array items fun v _ => induct null bool number string array object v
  | .object members => object members fun m _ => induct null bool number string array object m.2
termination_by v => sizeOf v
decreasing_by
  all_goals simp_wf
  · have := List.sizeOf_lt_of_mem ‹_ ∈ items›
    omega
  · have := List.sizeOf_lt_of_mem ‹_ ∈ members›
    have hsnd : sizeOf m = 1 + sizeOf m.1 + sizeOf m.2 := rfl
    omega

/-- The keys of every object are distinct. -/
inductive Distinct : JsonValue ν → Prop
  | null : Distinct .null
  | bool (b : Bool) : Distinct (.bool b)
  | number (n : ν) : Distinct (.number n)
  | string (s : JsString) : Distinct (.string s)
  | array {items : List (JsonValue ν)} (h : ∀ v ∈ items, Distinct v) : Distinct (.array items)
  | object {members : List (JsString × JsonValue ν)} (hkeys : (members.map Prod.fst).Nodup)
      (h : ∀ m ∈ members, Distinct m.2) : Distinct (.object members)

/-- A key occurs in a value, at any depth. -/
inductive HasKey (key : JsString) : JsonValue ν → Prop
  | here {members : List (JsString × JsonValue ν)} (h : key ∈ members.map Prod.fst) :
      HasKey key (.object members)
  | item {items : List (JsonValue ν)} {v : JsonValue ν} (hv : v ∈ items) (h : HasKey key v) :
      HasKey key (.array items)
  | member {members : List (JsString × JsonValue ν)} {m : JsString × JsonValue ν}
      (hm : m ∈ members) (h : HasKey key m.2) : HasKey key (.object members)

/-- **Equality up to the order of keys**: the members of an object may change
places, at any depth. -/
inductive Reordered : JsonValue ν → JsonValue ν → Prop
  | refl (v : JsonValue ν) : Reordered v v
  | trans {u v w : JsonValue ν} (h₁ : Reordered u v) (h₂ : Reordered v w) : Reordered u w
  | swap {ms ns : List (JsString × JsonValue ν)} (h : ms.Perm ns) :
      Reordered (.object ms) (.object ns)
  | item {before after : List (JsonValue ν)} {v w : JsonValue ν} (h : Reordered v w) :
      Reordered (.array (before ++ v :: after)) (.array (before ++ w :: after))
  | member {before after : List (JsString × JsonValue ν)} {key : JsString} {v w : JsonValue ν}
      (h : Reordered v w) :
      Reordered (.object (before ++ (key, v) :: after)) (.object (before ++ (key, w) :: after))

section

variable {u v w : JsonValue ν} {items : List (JsonValue ν)}
  {members : List (JsString × JsonValue ν)} {key : JsString}

theorem distinct_array : Distinct (.array items) ↔ ∀ v ∈ items, Distinct v := by
  constructor
  · rintro (_ | _ | _ | _ | h | _)
    exact h
  · exact .array

theorem distinct_object : Distinct (.object members) ↔
    (members.map Prod.fst).Nodup ∧ ∀ m ∈ members, Distinct m.2 := by
  constructor
  · rintro (_ | _ | _ | _ | _ | ⟨hkeys, h⟩)
    exact ⟨hkeys, h⟩
  · rintro ⟨hkeys, h⟩
    exact .object hkeys h

theorem hasKey_array : HasKey key (.array items) ↔ ∃ v ∈ items, HasKey key v := by
  constructor
  · rintro (_ | ⟨hv, h⟩ | _)
    exact ⟨_, hv, h⟩
  · rintro ⟨v, hv, h⟩
    exact .item hv h

theorem hasKey_object : HasKey key (.object members) ↔
    key ∈ members.map Prod.fst ∨ ∃ m ∈ members, HasKey key m.2 := by
  constructor
  · rintro (h | _ | ⟨hm, h⟩)
    · exact .inl h
    · exact .inr ⟨_, hm, h⟩
  · rintro (h | ⟨m, hm, h⟩)
    · exact .here h
    · exact .member hm h

/-! ## What a change of places leaves -/

theorem Reordered.symm (h : Reordered v w) : Reordered w v := by
  induction h with
  | refl v => exact .refl v
  | trans _ _ ih₁ ih₂ => exact ih₂.trans ih₁
  | swap h => exact .swap h.symm
  | item _ ih => exact .item ih
  | member _ ih => exact .member ih

/-- No key is lost. -/
theorem Reordered.hasKey (h : Reordered v w) (hkey : HasKey key v) : HasKey key w := by
  induction h with
  | refl v => exact hkey
  | trans _ _ ih₁ ih₂ => exact ih₂ (ih₁ hkey)
  | swap h =>
    rw [hasKey_object] at hkey ⊢
    rcases hkey with hkey | ⟨m, hm, hkey⟩
    · exact .inl ((h.map Prod.fst).mem_iff.mp hkey)
    · exact .inr ⟨m, h.mem_iff.mp hm, hkey⟩
  | @item before after v w _ ih =>
    rw [hasKey_array] at hkey ⊢
    obtain ⟨x, hx, hkey⟩ := hkey
    rcases List.mem_append.mp hx with hx | hx
    · exact ⟨x, List.mem_append_left _ hx, hkey⟩
    · rcases List.mem_cons.mp hx with rfl | hx
      · exact ⟨w, by simp, ih hkey⟩
      · exact ⟨x, by simp [hx], hkey⟩
  | @member before after k v w _ ih =>
    rw [hasKey_object] at hkey ⊢
    rcases hkey with hkey | ⟨m, hm, hkey⟩
    · exact .inl (by simpa using hkey)
    · rcases List.mem_append.mp hm with hm | hm
      · exact .inr ⟨m, List.mem_append_left _ hm, hkey⟩
      · rcases List.mem_cons.mp hm with rfl | hm
        · exact .inr ⟨(k, w), by simp, ih hkey⟩
        · exact .inr ⟨m, by simp [hm], hkey⟩

/-- Keys stay distinct. -/
theorem Reordered.distinct (h : Reordered v w) (hv : Distinct v) : Distinct w := by
  induction h with
  | refl v => exact hv
  | trans _ _ ih₁ ih₂ => exact ih₂ (ih₁ hv)
  | swap h =>
    rw [distinct_object] at hv ⊢
    exact ⟨(h.map Prod.fst).nodup_iff.mp hv.1, fun m hm => hv.2 m (h.mem_iff.mpr hm)⟩
  | @item before after v w _ ih =>
    rw [distinct_array] at hv ⊢
    intro x hx
    rcases List.mem_append.mp hx with hx | hx
    · exact hv x (List.mem_append_left _ hx)
    · rcases List.mem_cons.mp hx with rfl | hx
      · exact ih (hv v (by simp))
      · exact hv x (by simp [hx])
  | @member before after k v w _ ih =>
    rw [distinct_object] at hv ⊢
    refine ⟨by simpa using hv.1, fun m hm => ?_⟩
    rcases List.mem_append.mp hm with hm | hm
    · exact hv.2 m (List.mem_append_left _ hm)
    · rcases List.mem_cons.mp hm with rfl | hm
      · exact ih (hv.2 (k, v) (by simp))
      · exact hv.2 m (by simp [hm])

/-- Items that are equal up to the order of keys make such arrays. -/
theorem reordered_array {xs ys : List (JsonValue ν)} (h : List.Forall₂ Reordered xs ys)
    (before : List (JsonValue ν)) : Reordered (.array (before ++ xs)) (.array (before ++ ys)) := by
  induction h generalizing before with
  | nil => exact .refl _
  | @cons x y xs ys hxy _ ih =>
    have htail := ih (before ++ [y])
    rw [List.append_assoc, List.append_assoc] at htail
    exact (Reordered.item hxy).trans htail

theorem reordered_object {ms ns : List (JsString × JsonValue ν)}
    (h : List.Forall₂ (fun m n => m.1 = n.1 ∧ Reordered m.2 n.2) ms ns)
    (before : List (JsString × JsonValue ν)) :
    Reordered (.object (before ++ ms)) (.object (before ++ ns)) := by
  induction h generalizing before with
  | nil => exact .refl _
  | @cons m n ms ns hmn _ ih =>
    obtain ⟨key, v⟩ := m
    obtain ⟨key', w⟩ := n
    obtain ⟨rfl, hvw⟩ := hmn
    have htail := ih (before ++ [(key, w)])
    rw [List.append_assoc, List.append_assoc] at htail
    exact (Reordered.member hvw).trans htail

end

end JsonValue

namespace ControlPlane

open JsonValue PrefixCode

variable {ν : Type} (format : NumberFormat ν) (localeCompare : JsString → JsString → ℤ)

section Code

mutual

/-- `canonical`. The texts of the members are at hand when they are sorted:
the order depends on their keys alone. -/
def canonical : JsonValue ν → List Char
  | .array items => '[' :: ([','].intercalate (canonicalItems items) ++ [']'])
  | .object members =>
    let entries := (canonicalEntries members).mergeSort fun a b => localeCompare a.1 b.1 ≤ 0
    '{' :: ([','].intercalate (entries.map fun e => JsonString.quote e.1 ++ ':' :: e.2) ++ ['}'])
  | .null => "null".toList
  | .bool true => "true".toList
  | .bool false => "false".toList
  | .number n => format.text n
  | .string s => JsonString.quote s

def canonicalItems : List (JsonValue ν) → List (List Char)
  | [] => []
  | item :: items => canonical item :: canonicalItems items

def canonicalEntries : List (JsString × JsonValue ν) → List (JsString × List Char)
  | [] => []
  | (key, item) :: members => (key, canonical item) :: canonicalEntries members

end

/-- The bytes `update` is given. -/
def canonicalUtf8 (value : JsonValue ν) : ByteArray :=
  (String.ofList (canonical format localeCompare value)).toUTF8

/-- `digestSnapshot`. -/
def digestSnapshot (sha256 : ByteArray → Sha256Digest) (value : JsonValue ν) : JsString :=
  (sha256 (canonicalUtf8 format localeCompare value)).hex

end Code

/-- **The comparator is a strict total order** on some keys. -/
structure OrdersKeys (keys : JsString → Prop) : Prop where
  swap : ∀ a b, keys a → keys b → (localeCompare a b < 0 ↔ 0 < localeCompare b a)
  trans : ∀ a b c, keys a → keys b → keys c → localeCompare a b < 0 → localeCompare b c < 0 →
    localeCompare a c < 0
  total : ∀ a b, keys a → keys b → a ≠ b → localeCompare a b < 0 ∨ localeCompare b a < 0

section

variable {format : NumberFormat ν} {localeCompare : JsString → JsString → ℤ}

/-! ## The text of a value -/

/-- What a value is followed by. -/
def EndsValue (r : List Char) : Prop := ∀ c ∈ r.head?, c ∈ [',', ']', '}']

theorem endsValue_cons {c : Char} (hc : c ∈ [',', ']', '}']) (r : List Char) :
    EndsValue (c :: r) := by
  intro d hd
  rw [← Option.some.inj hd]
  exact hc

/-- The text of a member. -/
def memberText (format : NumberFormat ν) (localeCompare : JsString → JsString → ℤ)
    (m : JsString × JsonValue ν) : List Char :=
  JsonString.quote m.1 ++ ':' :: canonical format localeCompare m.2

/-- The order the members are written in. -/
def inOrder (localeCompare : JsString → JsString → ℤ) (members : List (JsString × JsonValue ν)) :
    List (JsString × JsonValue ν) :=
  members.mergeSort fun a b => localeCompare a.1 b.1 ≤ 0

theorem canonicalItems_eq (items : List (JsonValue ν)) :
    canonicalItems format localeCompare items = items.map (canonical format localeCompare) := by
  induction items with
  | nil => rfl
  | cons item items ih => rw [canonicalItems, ih, List.map_cons]

theorem canonicalEntries_eq (members : List (JsString × JsonValue ν)) :
    canonicalEntries format localeCompare members =
      members.map fun m => (m.1, canonical format localeCompare m.2) := by
  induction members with
  | nil => rfl
  | cons m members ih =>
    obtain ⟨key, v⟩ := m
    rw [canonicalEntries, ih, List.map_cons]

theorem canonical_array (items : List (JsonValue ν)) :
    canonical format localeCompare (.array items) =
      '[' :: ([','].intercalate (items.map (canonical format localeCompare)) ++ [']']) := by
  rw [canonical, canonicalItems_eq]

theorem canonical_object (members : List (JsString × JsonValue ν)) :
    canonical format localeCompare (.object members) =
      '{' :: ([','].intercalate ((inOrder localeCompare members).map
        (memberText format localeCompare)) ++ ['}']) := by
  have hsort : ((canonicalEntries format localeCompare members).mergeSort
      fun a b => localeCompare a.1 b.1 ≤ 0) =
        (inOrder localeCompare members).map fun m => (m.1, canonical format localeCompare m.2) := by
    rw [canonicalEntries_eq, inOrder, List.map_mergeSort]
    intro a _ b _
    rfl
  rw [canonical, hsort, List.map_map]
  rfl

/-- What a text starts with tells what kind of value it is of. -/
def kindOf (c : Char) : ℕ :=
  if c = 'n' then 0 else if c = 't' ∨ c = 'f' then 1 else if c = '"' then 2
  else if c = '[' then 3 else if c = '{' then 4 else 5

def kind : JsonValue ν → ℕ
  | .null => 0
  | .bool _ => 1
  | .string _ => 2
  | .array _ => 3
  | .object _ => 4
  | .number _ => 5

theorem canonical_head (format : NumberFormat ν) (localeCompare : JsString → JsString → ℤ)
    (v : JsonValue ν) : ∃ c rest, canonical format localeCompare v = c :: rest ∧
      kindOf c = kind v ∧ c ∉ [',', ']', '}'] := by
  cases v with
  | null => exact ⟨'n', _, rfl, rfl, by decide⟩
  | bool b => cases b <;> exact ⟨_, _, rfl, rfl, by decide⟩
  | string s => exact ⟨'"', _, rfl, rfl, by decide⟩
  | array items => exact ⟨'[', _, rfl, rfl, by decide⟩
  | object members => exact ⟨'\x7b', _, rfl, rfl, by decide⟩
  | number n =>
    have hall : ∀ c ∈ "0123456789-+.e".toList, kindOf c = 5 ∧ c ∉ [',', ']', '}'] :=
      List.forall_iff_forall_mem.mp (by decide)
    cases htext : format.text n with
    | nil => exact absurd htext (format.ne_nil n)
    | cons c rest =>
      have hc := hall c (format.numeral n c (by rw [htext]; exact List.mem_cons_self))
      exact ⟨c, rest, by rw [canonical, htext], hc.1, hc.2⟩

theorem kind_eq {v w : JsonValue ν} {r r' : List Char}
    (h : canonical format localeCompare v ++ r = canonical format localeCompare w ++ r') :
    kind v = kind w := by
  obtain ⟨c, rest, hc, hkind, -⟩ := canonical_head format localeCompare v
  obtain ⟨c', rest', hc', hkind', -⟩ := canonical_head format localeCompare w
  rw [hc, hc'] at h
  rw [← hkind, ← hkind', (List.cons.inj h).1]

/-! ## A text is of one value -/

/-- A numeral ends where its marks do. -/
theorem readable_number {n m : ν} {r r' : List Char} (hr : EndsValue r) (hr' : EndsValue r')
    (h : format.text n ++ r = format.text m ++ r') : n = m ∧ r = r' := by
  have hends : ∀ c ∈ [',', ']', '}'], ¬ c ∈ "0123456789-+.e".toList :=
    List.forall_iff_forall_mem.mp (by decide)
  obtain ⟨htext, hrest⟩ := append_inj_of_marks (format.numeral n) (format.numeral m)
    (fun c hc => hends c (hr c hc)) (fun c hc => hends c (hr' c hc)) h
  exact ⟨format.injective htext, hrest⟩

theorem readable_member {m : JsString × JsonValue ν}
    (h : Readable EndsValue (canonical format localeCompare) Reordered m.2) :
    Readable EndsValue (memberText format localeCompare)
      (fun m n => m.1 = n.1 ∧ Reordered m.2 n.2) m := by
  intro n r r' hr hr' heq
  simp only [memberText, List.append_assoc] at heq
  obtain ⟨hkey, htail⟩ := JsonString.quote_inj heq
  obtain ⟨hvalue, hrest⟩ := h n.2 r r' hr hr' (List.cons.inj htail).2
  exact ⟨⟨hkey, hvalue⟩, hrest⟩

/-- **A value is read back from its canonical text**, up to the order of
keys. -/
theorem readable_canonical (v : JsonValue ν) :
    Readable EndsValue (canonical format localeCompare) Reordered v := by
  have hsep : ∀ r, EndsValue (',' :: r) := endsValue_cons (by decide)
  induction v using JsonValue.induct with
  | null =>
    intro w r r' _ _ h
    have hkind := kind_eq h
    cases w with
    | null => exact ⟨.refl _, List.append_cancel_left h⟩
    | _ => exact absurd hkind (by simp [kind])
  | bool b =>
    intro w r r' _ _ h
    have hkind := kind_eq h
    cases w with
    | bool b' =>
      cases b <;> cases b'
      · exact ⟨.refl _, List.append_cancel_left h⟩
      · exact absurd (List.cons.inj h).1 (by decide)
      · exact absurd (List.cons.inj h).1 (by decide)
      · exact ⟨.refl _, List.append_cancel_left h⟩
    | _ => exact absurd hkind (by simp [kind])
  | number n =>
    intro w r r' hr hr' h
    have hkind := kind_eq h
    cases w with
    | number m =>
      rw [canonical, canonical] at h
      obtain ⟨rfl, hrest⟩ := readable_number hr hr' h
      exact ⟨.refl _, hrest⟩
    | _ => exact absurd hkind (by simp [kind])
  | string s =>
    intro w r r' _ _ h
    have hkind := kind_eq h
    cases w with
    | string t =>
      rw [canonical, canonical] at h
      obtain ⟨rfl, hrest⟩ := JsonString.quote_inj h
      exact ⟨.refl _, hrest⟩
    | _ => exact absurd hkind (by simp [kind])
  | array items ih =>
    intro w r r' _ _ h
    have hkind := kind_eq h
    cases w with
    | array items' =>
      rw [canonical_array, canonical_array, List.cons_append, List.cons_append, List.append_assoc,
        List.append_assoc] at h
      have hhead : ∀ v : JsonValue ν, ∃ c rest,
          canonical format localeCompare v = c :: rest ∧ c ≠ ']' := by
        intro v
        obtain ⟨c, rest, hc, -, hne⟩ := canonical_head format localeCompare v
        exact ⟨c, rest, hc, fun heq => hne (by simp [heq])⟩
      obtain ⟨hitems, hrest⟩ := readable_items (by decide) hsep (endsValue_cons (by decide)) hhead ih
        (List.cons.inj h).2
      exact ⟨reordered_array hitems [], hrest⟩
    | _ => exact absurd hkind (by simp [kind])
  | object members ih =>
    intro w r r' _ _ h
    have hkind := kind_eq h
    cases w with
    | object members' =>
      rw [canonical_object, canonical_object, List.cons_append, List.cons_append, List.append_assoc,
        List.append_assoc] at h
      have hhead : ∀ m : JsString × JsonValue ν, ∃ c rest,
          memberText format localeCompare m = c :: rest ∧ c ≠ '}' :=
        fun m => ⟨'"', _, rfl, by decide⟩
      have hsorted : ∀ m ∈ inOrder localeCompare members,
          Readable EndsValue (memberText format localeCompare)
            (fun m n => m.1 = n.1 ∧ Reordered m.2 n.2) m :=
        fun m hm => readable_member (ih m (List.mem_mergeSort.mp hm))
      obtain ⟨hitems, hrest⟩ := readable_items (by decide) hsep (endsValue_cons (by decide)) hhead
        hsorted (List.cons.inj h).2
      -- the sort only changes the places of the members
      have hplaces : ∀ ms : List (JsString × JsonValue ν),
          Reordered (.object ms) (.object (inOrder localeCompare ms)) :=
        fun ms => .swap (List.mergeSort_perm _ _).symm
      exact ⟨((hplaces members).trans (reordered_object hitems [])).trans (hplaces members').symm,
        hrest⟩
    | _ => exact absurd hkind (by simp [kind])

/-! ## The sort forgets the places -/

section

variable {keys : JsString → Prop}

/-- Members whose keys are ordered are sorted. -/
theorem pairwise_inOrder (h : OrdersKeys localeCompare keys) {members : List (JsString × JsonValue ν)}
    (hkeys : ∀ m ∈ members, keys m.1) :
    (inOrder localeCompare members).Pairwise fun a b => localeCompare a.1 b.1 ≤ 0 := by
  -- the comparator is only known on the keys that occur
  have hattach : (members.attach.mergeSort fun a b => localeCompare a.1.1 b.1.1 ≤ 0).map
      Subtype.val = inOrder localeCompare members := by
    have hmap : ∀ a ∈ members.attach, ∀ b ∈ members.attach,
        decide (localeCompare a.1.1 b.1.1 ≤ 0) = decide (localeCompare a.val.1 b.val.1 ≤ 0) :=
      fun _ _ _ _ => rfl
    exact (List.map_mergeSort hmap).trans (by rw [List.attach_map_subtype_val]; rfl)
  have hle : ∀ a b, keys a → keys b → (localeCompare a b ≤ 0 ↔ a = b ∨ localeCompare a b < 0) := by
    intro a b ha hb
    constructor
    · intro hab
      by_cases heq : a = b
      · exact .inl heq
      · rcases h.total a b ha hb heq with hlt | hlt
        · exact .inr hlt
        · have := (h.swap b a hb ha).mp hlt
          omega
    · rintro (rfl | hlt)
      · have := h.swap a a ha ha
        omega
      · omega
  rw [← hattach, List.pairwise_map]
  refine (List.pairwise_mergeSort ?_ ?_ _).imp fun hab => of_decide_eq_true hab
  · rintro ⟨a, ha⟩ ⟨b, hb⟩ ⟨c, hc⟩ hab hbc
    have hka := hkeys a ha
    have hkb := hkeys b hb
    have hkc := hkeys c hc
    rw [decide_eq_true_eq, hle _ _ hka hkb] at hab
    rw [decide_eq_true_eq, hle _ _ hkb hkc] at hbc
    rw [decide_eq_true_eq, hle _ _ hka hkc]
    rcases hab with hab | hab
    · rw [hab]
      exact hbc
    · rcases hbc with hbc | hbc
      · rw [← hbc]
        exact .inr hab
      · exact .inr (h.trans _ _ _ hka hkb hkc hab hbc)
  · rintro ⟨a, ha⟩ ⟨b, hb⟩
    rw [Bool.or_eq_true, decide_eq_true_eq, decide_eq_true_eq, hle _ _ (hkeys a ha) (hkeys b hb),
      hle _ _ (hkeys b hb) (hkeys a ha)]
    by_cases heq : a.1 = b.1
    · exact .inl (.inl heq)
    · exact (h.total _ _ (hkeys a ha) (hkeys b hb) heq).imp .inr .inr

/-- **Members that changed places are sorted alike.** -/
theorem inOrder_perm (h : OrdersKeys localeCompare keys) {ms ns : List (JsString × JsonValue ν)}
    (hkeys : ∀ m ∈ ms, keys m.1) (hnodup : (ms.map Prod.fst).Nodup) (hperm : ms.Perm ns) :
    inOrder localeCompare ms = inOrder localeCompare ns := by
  have hkeys' : ∀ m ∈ ns, keys m.1 := fun m hm => hkeys m (hperm.mem_iff.mpr hm)
  refine List.Perm.eq_of_pairwise ?_ (pairwise_inOrder h hkeys) (pairwise_inOrder h hkeys')
    ((List.mergeSort_perm _ _).trans (hperm.trans (List.mergeSort_perm _ _).symm))
  intro a b ha hb hab hba
  have ha' : a ∈ ms := List.mem_mergeSort.mp ha
  have hb' : b ∈ ms := hperm.mem_iff.mpr (List.mem_mergeSort.mp hb)
  refine List.inj_on_of_nodup_map hnodup ha' hb' ?_
  by_contra hne
  have hswap := h.swap a.1 b.1 (hkeys a ha') (hkeys b hb')
  have hswap' := h.swap b.1 a.1 (hkeys b hb') (hkeys a ha')
  rcases h.total a.1 b.1 (hkeys a ha') (hkeys b hb') hne with hlt | hlt <;> omega

/-- **Values that are equal up to the order of keys have one text.** -/
theorem canonical_of_reordered (h : OrdersKeys localeCompare keys) {v w : JsonValue ν}
    (hvw : Reordered v w) (hv : Distinct v) (hkeys : ∀ key, HasKey key v → keys key) :
    canonical format localeCompare v = canonical format localeCompare w := by
  induction hvw with
  | refl v => rfl
  | trans h₁ _ ih₁ ih₂ =>
    exact (ih₁ hv hkeys).trans
      (ih₂ (h₁.distinct hv) fun key hkey => hkeys key (h₁.symm.hasKey hkey))
  | @swap ms ns hperm =>
    have hmembers : ∀ m ∈ ms, keys m.1 := fun m hm => hkeys _ (.here (List.mem_map_of_mem hm))
    rw [canonical_object, canonical_object, inOrder_perm h hmembers (distinct_object.mp hv).1 hperm]
  | @item before after v w _ ih =>
    have hmem : v ∈ before ++ v :: after := by simp
    have heq := ih (distinct_array.mp hv v hmem) fun key hkey => hkeys key (.item hmem hkey)
    rw [canonical_array, canonical_array, List.map_append, List.map_append, List.map_cons,
      List.map_cons, heq]
  | @member before after key v w _ ih =>
    have hmem : (key, v) ∈ before ++ (key, v) :: after := by simp
    have heq := ih ((distinct_object.mp hv).2 _ hmem) fun k hk => hkeys k (.member hmem hk)
    simp only [canonical, canonicalEntries_eq, List.map_append, List.map_cons, heq]

end

theorem canonicalUtf8_inj {x y : JsonValue ν}
    (h : canonicalUtf8 format localeCompare x = canonicalUtf8 format localeCompare y) :
    canonical format localeCompare x = canonical format localeCompare y := by
  rw [canonicalUtf8, canonicalUtf8, String.toUTF8_eq_toByteArray, String.toUTF8_eq_toByteArray] at h
  exact String.ofList_injective (String.toByteArray_inj.mp h)

/-- **Snapshots are identified by their digests**: the canonical texts of two
values agree exactly if the values do, up to the order of keys, and so do
their digests where SHA-256 does not collide. -/
theorem digests_identify (format : NumberFormat ν) (localeCompare : JsString → JsString → ℤ)
    (sha256 : ByteArray → Sha256Digest) {x y : JsonValue ν} (hx : Distinct x)
    (horder : OrdersKeys localeCompare fun key => HasKey key x ∨ HasKey key y)
    (hcollision : sha256 (canonicalUtf8 format localeCompare x) =
        sha256 (canonicalUtf8 format localeCompare y) →
      canonicalUtf8 format localeCompare x = canonicalUtf8 format localeCompare y) :
    (canonical format localeCompare x = canonical format localeCompare y ↔ Reordered x y) ∧
      (digestSnapshot format localeCompare sha256 x = digestSnapshot format localeCompare sha256 y ↔
        Reordered x y) := by
  have hcanonical :
      canonical format localeCompare x = canonical format localeCompare y ↔ Reordered x y := by
    constructor
    · intro h
      have hend : EndsValue [] := by simp [EndsValue]
      exact (readable_canonical x y [] [] hend hend (congrArg (· ++ []) h)).1
    · intro h
      exact canonical_of_reordered horder h hx fun key hkey => .inl hkey
  refine ⟨hcanonical, ?_⟩
  rw [← hcanonical]
  constructor
  · exact fun h => canonicalUtf8_inj (hcollision (Sha256Digest.hex_injective h))
  · intro h
    rw [digestSnapshot, digestSnapshot, canonicalUtf8, canonicalUtf8, h]

end

/-- The numbers below ten. -/
def oneDigit : NumberFormat (Fin 10) where
  text n := [Nat.digitChar n]
  injective n m h := by
    revert n m
    decide
  ne_nil := by decide
  numeral n := List.forall_mem_singleton.mpr (by
    revert n
    decide)

/-- Keys in the order of their code units. -/
def compareUnits (a b : JsString) : ℤ :=
  if a.map UInt16.toNat < b.map UInt16.toNat then -1
  else if b.map UInt16.toNat < a.map UInt16.toNat then 1
  else 0

theorem compareUnits_lt {a b : JsString} :
    compareUnits a b < 0 ↔ a.map UInt16.toNat < b.map UInt16.toNat := by
  unfold compareUnits
  split_ifs <;> simp_all

theorem compareUnits_gt {a b : JsString} :
    0 < compareUnits a b ↔ b.map UInt16.toNat < a.map UInt16.toNat := by
  unfold compareUnits
  split_ifs with hab hba
  · simp [lt_asymm hab]
  · simp [hba]
  · simp [hba]

theorem ordersKeys_compareUnits (keys : JsString → Prop) : OrdersKeys compareUnits keys where
  swap a b _ _ := by rw [compareUnits_lt, compareUnits_gt]
  trans a b c _ _ _ hab hbc := by
    rw [compareUnits_lt] at hab hbc ⊢
    exact lt_trans hab hbc
  total a b _ _ hne := by
    have hinj : Function.Injective UInt16.toNat := fun _ _ => UInt16.toNat_inj.mp
    rw [compareUnits_lt, compareUnits_lt]
    exact lt_or_gt_of_ne fun heq => hne (List.map_injective_iff.mpr hinj heq)

/-- The digest of `{"a":1,"b":2}`. -/
def digestOneTwo : Sha256Digest where
  bytes := [67, 37, 140, 255, 120, 63, 231, 3, 109, 138, 67, 3, 63, 131, 10, 223, 198, 14, 192, 55,
    56, 36, 115, 84, 138, 199, 66, 184, 136, 41, 39, 119]
  length_bytes := rfl

/-- The digest of the empty text. -/
def digestEmpty : Sha256Digest where
  bytes := [227, 176, 196, 66, 152, 252, 28, 20, 154, 251, 244, 200, 153, 111, 185, 36, 39, 174, 65,
    228, 100, 155, 147, 76, 164, 149, 153, 27, 120, 82, 184, 85]
  length_bytes := rfl

/-- SHA-256 on the two texts. -/
def sha256OneTwo (text : ByteArray) : Sha256Digest :=
  if text.isEmpty then digestEmpty else digestOneTwo

/-- The members of an object, in two orders. -/
theorem digests_identify_swapped :
    digestSnapshot oneDigit compareUnits sha256OneTwo
        (.object [(.ofText "b", .number 2), (.ofText "a", .number 1)]) =
      digestSnapshot oneDigit compareUnits sha256OneTwo
        (.object [(.ofText "a", .number 1), (.ofText "b", .number 2)]) := by
  let x : JsonValue (Fin 10) := .object [(.ofText "b", .number 2), (.ofText "a", .number 1)]
  let y : JsonValue (Fin 10) := .object [(.ofText "a", .number 1), (.ofText "b", .number 2)]
  have hdistinct : Distinct x := .object (by decide) (by simp [Distinct.number])
  have hswap : Reordered x y := .swap (.swap _ _ _)
  have htext : canonical oneDigit compareUnits x = canonical oneDigit compareUnits y :=
    canonical_of_reordered (ordersKeys_compareUnits fun _ => True) hswap hdistinct
      fun _ _ => trivial
  exact (digests_identify oneDigit compareUnits sha256OneTwo hdistinct
    (ordersKeys_compareUnits _) fun _ => by rw [canonicalUtf8, canonicalUtf8, htext]).2.mpr hswap

end ControlPlane

end AgentReliability
