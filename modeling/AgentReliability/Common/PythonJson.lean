import AgentReliability.Common.PrefixCode
import Mathlib.Data.List.Basic
import Mathlib.Data.List.Nodup
import Mathlib.Data.List.Perm.Basic
import Mathlib.Tactic.Common
import Mathlib.Tactic.IntervalCases
/-!
# `json.dumps` with sorted keys

What `json.dumps(value, sort_keys=True, ensure_ascii=False)` writes of a
value that was read from JSON. Two values have the same text exactly if
they are the same once the keys of their dicts are sorted: a value ends
where a comma or a closing bracket follows, and no text is the beginning of
another up to there.
-/

namespace AgentReliability

/-- A number, as it is written. -/
structure JsonNumber where
  text : List Char
  start : text.head?.any fun c => c.isDigit || c ∈ ['-', 'N', 'I']
  within : ∀ c ∈ text, c ∉ [',', ']', '}']
  deriving DecidableEq

/-- A value that JSON can hold. An integer and a float are told apart by
how they are written. -/
inductive PyValue where
  | none
  | bool (b : Bool)
  | number (n : JsonNumber)
  | str (s : String)
  | list (items : List PyValue)
  | dict (members : List (String × PyValue))

namespace PyValue

/-! ## Texts -/

def hexDigit (n : ℕ) : Char :=
  if n < 10 then Char.ofNat (48 + n) else Char.ofNat (87 + n)

/-- `ESCAPE_DCT`. -/
def escapeChar (c : Char) : List Char :=
  if c = '"' then ['\\', '"']
  else if c = '\\' then ['\\', '\\']
  else if c = '\n' then ['\\', 'n']
  else if c = '\r' then ['\\', 'r']
  else if c = '\t' then ['\\', 't']
  else if c = '\x0c' then ['\\', 'f']
  else if c = '\x08' then ['\\', 'b']
  else if c.toNat < 32 then
    ['\\', 'u', '0', '0', hexDigit (c.toNat / 16), hexDigit (c.toNat % 16)]
  else [c]

def quoteChars (cs : List Char) : List Char := '"' :: (cs.flatMap escapeChar ++ ['"'])

mutual

def print : PyValue → List Char
  | .none => "null".toList
  | .bool true => "true".toList
  | .bool false => "false".toList
  | .number n => n.text
  | .str s => quoteChars s.toList
  | .list items => '[' :: printItems [] items
  | .dict members => '{' :: printMembers [] members

/-- The items of a list, and its end. The separator stands before an item. -/
def printItems (separator : List Char) : List PyValue → List Char
  | [] => [']']
  | item :: items => separator ++ print item ++ printItems [',', ' '] items

def printMembers (separator : List Char) : List (String × PyValue) → List Char
  | [] => ['}']
  | (key, value) :: members =>
    separator ++ quoteChars key.toList ++ [':', ' '] ++ print value ++
      printMembers [',', ' '] members

end

mutual

/-- The value with the keys of its dicts sorted. -/
def sortKeys : PyValue → PyValue
  | .list items => .list (sortItems items)
  | .dict members => .dict ((sortMembers members).mergeSort fun a b => a.1 ≤ b.1)
  | value => value

def sortItems : List PyValue → List PyValue
  | [] => []
  | item :: items => sortKeys item :: sortItems items

def sortMembers : List (String × PyValue) → List (String × PyValue)
  | [] => []
  | (key, value) :: members => (key, sortKeys value) :: sortMembers members

end

theorem sortItems_eq_map (items : List PyValue) : sortItems items = items.map sortKeys := by
  induction items with
  | nil => rfl
  | cons item items ih => rw [sortItems, ih, List.map_cons]

/-- `json.dumps(value, sort_keys=True, ensure_ascii=False)`. -/
def dumps (value : PyValue) : String := .ofList (print (sortKeys value))

/-! ## No text is the beginning of another -/

/-- The character an escape is of, and what follows it. -/
def unescapeChar : List Char → Option (Char × List Char)
  | '\\' :: 'u' :: '0' :: '0' :: high :: low :: rest =>
    (List.range 32).find? (fun n => hexDigit (n / 16) = high ∧ hexDigit (n % 16) = low) |>.map
      fun n => (Char.ofNat n, rest)
  | '\\' :: 'n' :: rest => some ('\n', rest)
  | '\\' :: 'r' :: rest => some ('\r', rest)
  | '\\' :: 't' :: rest => some ('\t', rest)
  | '\\' :: 'f' :: rest => some ('\x0c', rest)
  | '\\' :: 'b' :: rest => some ('\x08', rest)
  | '\\' :: c :: rest => some (c, rest)
  | c :: rest => some (c, rest)
  | [] => Option.none

theorem unescapeChar_escapeChar (c : Char) (rest : List Char) :
    unescapeChar (escapeChar c ++ rest) = some (c, rest) := by
  by_cases hcontrol : c.toNat < 32
  · have hall : ∀ n < 32, unescapeChar (escapeChar (Char.ofNat n) ++ rest) =
        some (Char.ofNat n, rest) := by
      intro n hn
      interval_cases n <;> rfl
    have hc := hall c.toNat hcontrol
    rw [Char.ofNat_toNat] at hc
    exact hc
  · have hne : ∀ d : Char, d.toNat < 32 → c ≠ d := by
      rintro d hd rfl
      exact hcontrol hd
    by_cases hquote : c = '"'
    · rw [hquote]
      rfl
    · by_cases hbackslash : c = '\\'
      · rw [hbackslash]
        rfl
      · have hescape : escapeChar c = [c] := by
          unfold escapeChar
          rw [if_neg hquote, if_neg hbackslash, if_neg (hne _ (by decide)), if_neg (hne _ (by decide)),
            if_neg (hne _ (by decide)), if_neg (hne _ (by decide)), if_neg (hne _ (by decide)),
            if_neg hcontrol]
        rw [hescape]
        unfold unescapeChar
        simp [hbackslash]

/-- An escape does not start with a quote. -/
theorem escapeChar_head (c : Char) : ∃ d rest, escapeChar c = d :: rest ∧ d ≠ '"' := by
  unfold escapeChar
  by_cases hquote : c = '"'
  · exact ⟨'\\', ['"'], if_pos hquote, by decide⟩
  · rw [if_neg hquote]
    split_ifs
    all_goals first
      | exact ⟨c, [], rfl, hquote⟩
      | exact ⟨'\\', _, rfl, by decide⟩

/-- **The end of a string is where its quote is.** -/
theorem quoteChars_inj {s t r r' : List Char} (h : quoteChars s ++ r = quoteChars t ++ r') :
    s = t ∧ r = r' := by
  simp only [quoteChars, List.cons_append, List.append_assoc, List.cons.injEq, true_and,
    List.nil_append] at h
  induction s generalizing t with
  | nil =>
    cases t with
    | nil => exact ⟨rfl, (List.cons.inj h).2⟩
    | cons d t =>
      obtain ⟨e, rest, he, hne⟩ := escapeChar_head d
      rw [List.flatMap_cons, he] at h
      exact absurd (List.cons.inj h).1.symm hne
  | cons c s ih =>
    cases t with
    | nil =>
      obtain ⟨e, rest, he, hne⟩ := escapeChar_head c
      rw [List.flatMap_cons, he] at h
      exact absurd (List.cons.inj h).1 hne
    | cons d t =>
      have hdecode := congrArg unescapeChar h
      rw [List.flatMap_cons, List.flatMap_cons, List.append_assoc, List.append_assoc,
        unescapeChar_escapeChar, unescapeChar_escapeChar] at hdecode
      obtain ⟨rfl, hrest⟩ := Prod.mk.inj (Option.some.inj hdecode)
      obtain ⟨rfl, rfl⟩ := ih hrest
      exact ⟨rfl, rfl⟩

/-- A value can end here. -/
def Stops (r : List Char) : Prop := ∀ c ∈ r.head?, c ∈ [',', ']', '}']

/-- What a text starts with tells what kind of value it is of. -/
def kindOf (c : Char) : ℕ :=
  if c = 'n' then 0 else if c = 't' then 1 else if c = 'f' then 2 else if c = '"' then 3
  else if c = '[' then 4 else if c = '{' then 5 else 6

def kind : PyValue → ℕ
  | .none => 0
  | .bool true => 1
  | .bool false => 2
  | .str _ => 3
  | .list _ => 4
  | .dict _ => 5
  | .number _ => 6

theorem print_head (v : PyValue) :
    ∃ c rest, print v = c :: rest ∧ kindOf c = kind v ∧ c ∉ [',', ']', '}'] := by
  cases v with
  | none => exact ⟨'n', _, rfl, rfl, by decide⟩
  | bool b => cases b <;> exact ⟨_, _, rfl, rfl, by decide⟩
  | str s => exact ⟨'"', _, rfl, rfl, by decide⟩
  | list items => exact ⟨'[', _, rfl, rfl, by decide⟩
  | dict members => exact ⟨'\x7b', _, rfl, rfl, by decide⟩
  | number n =>
    obtain ⟨text, start, within⟩ := n
    cases text with
    | nil => exact absurd start (by simp)
    | cons c rest =>
      refine ⟨c, rest, rfl, ?_, within c List.mem_cons_self⟩
      simp only [List.head?_cons, Option.any_some, Bool.or_eq_true, decide_eq_true_eq] at start
      have hne : ∀ d ∈ ['n', 't', 'f', '"', '[', '\x7b'], c ≠ d := by
        rintro d hd rfl
        have hnone : ∀ d ∈ ['n', 't', 'f', '"', '[', '\x7b'],
            ¬ (d.isDigit = true ∨ d ∈ ['-', 'N', 'I']) :=
          List.forall_iff_forall_mem.mp (by decide)
        exact hnone c hd start
      unfold kindOf
      rw [if_neg (hne _ (by decide)), if_neg (hne _ (by decide)), if_neg (hne _ (by decide)),
        if_neg (hne _ (by decide)), if_neg (hne _ (by decide)), if_neg (hne _ (by decide))]
      rfl

theorem kind_eq {a b : PyValue} {r r' : List Char} (h : print a ++ r = print b ++ r') :
    kind a = kind b := by
  obtain ⟨c, rest, hc, hkind, -⟩ := print_head a
  obtain ⟨c', rest', hc', hkind', -⟩ := print_head b
  rw [hc, hc'] at h
  rw [← hkind, ← hkind', (List.cons.inj h).1]

theorem stops_close {c : Char} {r : List Char} (hc : c ∈ [',', ']', '}']) : Stops (c :: r) := by
  intro d hd
  rw [← Option.some.inj hd]
  exact hc

/-- What follows a value of a list is where it can end. -/
theorem stops_printItems (items : List PyValue) (r : List Char) :
    Stops (printItems [',', ' '] items ++ r) := by
  cases items <;> exact stops_close (by decide)

theorem stops_printMembers (members : List (String × PyValue)) (r : List Char) :
    Stops (printMembers [',', ' '] members ++ r) := by
  cases members <;> exact stops_close (by decide)

/-- A separator that has been read, or none. -/
def IsSeparator (separator : List Char) : Prop := separator = [] ∨ separator = [',', ' ']

/-- A list with items does not start with its end. -/
theorem printItems_ne {separator : List Char} (hseparator : IsSeparator separator) {item : PyValue}
    {items : List PyValue} {r r' : List Char} :
    printItems separator (item :: items) ++ r ≠ ']' :: r' := by
  intro h
  rcases hseparator with rfl | rfl
  · obtain ⟨c, rest, hc, -, hne⟩ := print_head item
    rw [printItems, List.nil_append, hc] at h
    exact hne (by rw [(List.cons.inj h).1]; decide)
  · rw [printItems] at h
    exact absurd (List.cons.inj h).1 (by decide)

theorem printMembers_ne {separator : List Char} (hseparator : IsSeparator separator)
    {member : String × PyValue} {members : List (String × PyValue)} {r r' : List Char} :
    printMembers separator (member :: members) ++ r ≠ '}' :: r' := by
  intro h
  rcases hseparator with rfl | rfl
  · rw [printMembers] at h
    exact absurd (List.cons.inj h).1 (by decide)
  · rw [printMembers] at h
    exact absurd (List.cons.inj h).1 (by decide)

mutual

/-- **A text is of one value**, up to where the value can end. -/
theorem print_inj (a b : PyValue) {r r' : List Char} (hr : Stops r) (hr' : Stops r')
    (h : print a ++ r = print b ++ r') : a = b ∧ r = r' := by
  have hkind := kind_eq h
  match a, b with
  | .none, .none => exact ⟨rfl, List.append_cancel_left h⟩
  | .bool true, .bool true => exact ⟨rfl, List.append_cancel_left h⟩
  | .bool false, .bool false => exact ⟨rfl, List.append_cancel_left h⟩
  | .str s, .str t =>
    rw [print, print] at h
    obtain ⟨heq, hrest⟩ := quoteChars_inj h
    exact ⟨by rw [String.toList_injective heq], hrest⟩
  | .number n, .number m =>
    rw [print, print] at h
    obtain ⟨heq, hrest⟩ := PrefixCode.append_inj_of_marks n.within m.within
      (fun c hc => not_not_intro (hr c hc)) (fun c hc => not_not_intro (hr' c hc)) h
    obtain ⟨text, start, within⟩ := n
    obtain ⟨text', start', within'⟩ := m
    obtain rfl := heq
    exact ⟨rfl, hrest⟩
  | .list xs, .list ys =>
    rw [print, print] at h
    obtain ⟨heq, hrest⟩ := printItems_inj (.inl rfl) xs ys (List.cons.inj h).2
    exact ⟨by rw [heq], hrest⟩
  | .dict xs, .dict ys =>
    rw [print, print] at h
    obtain ⟨heq, hrest⟩ := printMembers_inj (.inl rfl) xs ys (List.cons.inj h).2
    exact ⟨by rw [heq], hrest⟩

theorem printItems_inj {separator : List Char} (hseparator : IsSeparator separator)
    (xs ys : List PyValue) {r r' : List Char}
    (h : printItems separator xs ++ r = printItems separator ys ++ r') : xs = ys ∧ r = r' := by
  match xs, ys with
  | [], [] =>
    rw [printItems] at h
    exact ⟨rfl, (List.cons.inj h).2⟩
  | [], y :: ys => exact absurd h.symm (printItems_ne hseparator)
  | x :: xs, [] => exact absurd h (printItems_ne hseparator)
  | x :: xs, y :: ys =>
    rw [printItems, printItems, List.append_assoc, List.append_assoc, List.append_assoc,
      List.append_assoc] at h
    obtain ⟨rfl, hrest⟩ := print_inj x y (stops_printItems xs r) (stops_printItems ys r')
      (List.append_cancel_left h)
    obtain ⟨rfl, rfl⟩ := printItems_inj (.inr rfl) xs ys hrest
    exact ⟨rfl, rfl⟩

theorem printMembers_inj {separator : List Char} (hseparator : IsSeparator separator)
    (xs ys : List (String × PyValue)) {r r' : List Char}
    (h : printMembers separator xs ++ r = printMembers separator ys ++ r') :
    xs = ys ∧ r = r' := by
  match xs, ys with
  | [], [] =>
    rw [printMembers] at h
    exact ⟨rfl, (List.cons.inj h).2⟩
  | [], y :: ys => exact absurd h.symm (printMembers_ne hseparator)
  | x :: xs, [] => exact absurd h (printMembers_ne hseparator)
  | (key, x) :: xs, (key', y) :: ys =>
    simp only [printMembers, List.append_assoc] at h
    obtain ⟨hkey, hvalue⟩ := quoteChars_inj (List.append_cancel_left h)
    obtain ⟨rfl, hrest⟩ := print_inj x y (stops_printMembers xs r) (stops_printMembers ys r')
      (List.append_cancel_left hvalue)
    obtain ⟨rfl, rfl⟩ := printMembers_inj (.inr rfl) xs ys hrest
    exact ⟨by rw [String.toList_injective hkey], rfl⟩

end

/-- **The dumps of two values agree exactly if the values do**, apart from
the order of their keys. -/
theorem dumps_inj {a b : PyValue} : dumps a = dumps b ↔ sortKeys a = sortKeys b := by
  constructor
  · intro h
    have hprint : print (sortKeys a) = print (sortKeys b) := String.ofList_injective h
    have hend : Stops [] := by simp [Stops]
    exact (print_inj _ _ hend hend (congrArg (· ++ []) hprint)).1
  · intro h
    rw [dumps, dumps, h]

end PyValue

end AgentReliability
