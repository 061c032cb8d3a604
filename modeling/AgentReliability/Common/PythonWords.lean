import AgentReliability.Common.PythonText
import Mathlib.Data.List.TakeWhile
/-!
# Words of a text, and patterns that are searched for

`str.strip`, `str.split` without a separator, and `re.search` for patterns
of characters and runs of whitespace, with `re.IGNORECASE`. What a search
finds does not start or end with whitespace, so it is found in the stripped
text exactly if it is in the text.
-/

namespace AgentReliability

namespace PythonText

/-! ## `str.strip` -/

def stripChars (cs : List Char) : List Char :=
  ((cs.dropWhile isWhitespace).reverse.dropWhile isWhitespace).reverse

def strip (text : String) : String := .ofList (stripChars text.toList)

/-- Whitespace at the end is stripped. -/
theorem stripChars_append_whitespace {c : Char} (hc : isWhitespace c) (cs : List Char) :
    stripChars (cs ++ [c]) = stripChars cs := by
  unfold stripChars
  rw [List.dropWhile_append]
  split
  · rename_i hempty
    rw [List.isEmpty_iff.mp hempty, List.dropWhile_cons_of_pos hc]
    rfl
  · rw [List.reverse_append, List.reverse_singleton, List.singleton_append,
      List.dropWhile_cons_of_pos hc]

/-- What starts with a character that stays is not dropped. -/
theorem infix_dropWhile {c : Char} (hc : isWhitespace c = false) {rest cs : List Char}
    (h : c :: rest <:+: cs) : c :: rest <:+: cs.dropWhile isWhitespace := by
  induction cs with
  | nil => exact h
  | cons d cs ih =>
    by_cases hd : isWhitespace d
    · rw [List.dropWhile_cons_of_pos hd]
      rcases List.infix_cons_iff.mp h with hstart | hlater
      · obtain ⟨rfl, -⟩ := List.cons_prefix_cons.mp hstart
        exact absurd hd (by simp [hc])
      · exact ih hlater
    · rw [List.dropWhile_cons_of_neg hd]
      exact h

theorem stripChars_within (cs : List Char) : stripChars cs <:+: cs := by
  have hdrop := (List.dropWhile_suffix (l := (cs.dropWhile isWhitespace).reverse) isWhitespace)
  have hback : stripChars cs <+: cs.dropWhile isWhitespace := by
    rw [← List.reverse_suffix, stripChars, List.reverse_reverse]
    exact hdrop
  exact hback.isInfix.trans (List.dropWhile_suffix isWhitespace).isInfix

/-- **What neither starts nor ends with whitespace is in the stripped text
exactly if it is in the text.** -/
theorem infix_stripChars_iff {m : List Char} (hhead : ∀ c ∈ m.head?, isWhitespace c = false)
    (hlast : ∀ c ∈ m.getLast?, isWhitespace c = false) {cs : List Char} :
    m <:+: stripChars cs ↔ m <:+: cs := by
  refine ⟨fun h => h.trans (stripChars_within cs), fun h => ?_⟩
  cases m with
  | nil => exact List.nil_infix
  | cons c rest =>
    have hfront := infix_dropWhile (hhead c rfl) h
    rw [← List.reverse_infix] at hfront ⊢
    rw [stripChars, List.reverse_reverse]
    cases hreverse : (c :: rest).reverse with
    | nil => exact List.nil_infix
    | cons d back =>
      rw [hreverse] at hfront
      refine infix_dropWhile (hlast d ?_) hfront
      rw [← List.head?_reverse, hreverse]
      rfl

/-! ## `str.split` -/

/-- The rest of the words, after the characters of the one that is being
read, in reverse. -/
def splitFrom (word : List Char) : List Char → List (List Char)
  | [] => if word = [] then [] else [word.reverse]
  | c :: cs =>
    if isWhitespace c then
      if word = [] then splitFrom [] cs else word.reverse :: splitFrom [] cs
    else splitFrom (c :: word) cs

def splitChars (cs : List Char) : List (List Char) := splitFrom [] cs

def split (text : String) : List String := (splitChars text.toList).map .ofList

theorem splitFrom_of_ne_nil {word : List Char} (hword : word ≠ []) (cs : List Char) :
    ∃ more rest, cs = more ++ rest ∧ (∀ c ∈ more, isWhitespace c = false) ∧
      (∀ c ∈ rest.head?, isWhitespace c) ∧
      splitFrom word cs = (word.reverse ++ more) :: splitChars rest := by
  induction cs generalizing word with
  | nil => exact ⟨[], [], rfl, by simp, by simp, by simp [splitFrom, splitChars, hword]⟩
  | cons c cs ih =>
    by_cases hc : isWhitespace c
    · refine ⟨[], c :: cs, rfl, by simp, by simpa using hc, ?_⟩
      rw [splitFrom, if_pos hc, if_neg hword, splitChars, splitFrom, if_pos hc, if_pos rfl,
        List.append_nil]
    · obtain ⟨more, rest, rfl, hmore, hrest, hsplit⟩ := ih (List.cons_ne_nil c word)
      rw [Bool.not_eq_true] at hc
      refine ⟨c :: more, rest, rfl, List.forall_mem_cons.mpr ⟨hc, hmore⟩, hrest, ?_⟩
      rw [splitFrom, hc, if_neg Bool.false_ne_true, hsplit, List.reverse_cons, List.append_assoc]
      rfl

theorem splitChars_nil {cs : List Char} (h : splitChars cs = []) : ∀ c ∈ cs, isWhitespace c := by
  induction cs with
  | nil => simp
  | cons c cs ih =>
    by_cases hc : isWhitespace c
    · rw [splitChars, splitFrom, if_pos hc, if_pos rfl] at h
      exact List.forall_mem_cons.mpr ⟨hc, ih h⟩
    · obtain ⟨more, rest, -, -, -, hsplit⟩ := splitFrom_of_ne_nil (List.cons_ne_nil c []) cs
      rw [splitChars, splitFrom, if_neg hc, hsplit] at h
      exact absurd h (List.cons_ne_nil _ _)

/-- **The first word of a text**: whitespace before it, and whitespace or
nothing after it. -/
theorem splitChars_cons {cs word : List Char} {more : List (List Char)}
    (h : splitChars cs = word :: more) :
    ∃ before rest, cs = before ++ word ++ rest ∧ (∀ c ∈ before, isWhitespace c) ∧ word ≠ [] ∧
      (∀ c ∈ word, isWhitespace c = false) ∧ (∀ c ∈ rest.head?, isWhitespace c) ∧
      splitChars rest = more := by
  induction cs with
  | nil => exact absurd h (by simp [splitChars, splitFrom])
  | cons c cs ih =>
    by_cases hc : isWhitespace c
    · rw [splitChars, splitFrom, if_pos hc, if_pos rfl] at h
      obtain ⟨before, rest, rfl, hbefore, hword⟩ := ih h
      exact ⟨c :: before, rest, rfl, List.forall_mem_cons.mpr ⟨hc, hbefore⟩, hword⟩
    · obtain ⟨tail, rest, rfl, htail, hrest, hsplit⟩ :=
        splitFrom_of_ne_nil (List.cons_ne_nil c []) cs
      rw [splitChars, splitFrom, if_neg hc, hsplit] at h
      obtain ⟨rfl, rfl⟩ := List.cons.inj h
      rw [Bool.not_eq_true] at hc
      exact ⟨[], rest, rfl, by simp, List.cons_ne_nil _ _,
        List.forall_mem_cons.mpr ⟨hc, htail⟩, hrest, rfl⟩

theorem splitFrom_append {c : Char} (hc : isWhitespace c) (word cs ds : List Char) :
    splitFrom word (cs ++ c :: ds) = splitFrom word cs ++ splitChars ds := by
  induction cs generalizing word with
  | nil =>
    simp only [List.nil_append, splitFrom, hc, if_true]
    split <;> rfl
  | cons d cs ih =>
    simp only [List.cons_append, splitFrom, ih]
    split
    · split <;> rfl
    · rfl

/-- **Whitespace separates the words before it from those after it.** -/
theorem splitChars_append {c : Char} (hc : isWhitespace c) (cs ds : List Char) :
    splitChars (cs ++ c :: ds) = splitChars cs ++ splitChars ds := splitFrom_append hc [] cs ds

theorem splitChars_blank {cs : List Char} (h : ∀ c ∈ cs, isWhitespace c) : splitChars cs = [] := by
  induction cs with
  | nil => rfl
  | cons c cs ih =>
    obtain ⟨hc, htail⟩ := List.forall_mem_cons.mp h
    rw [splitChars, splitFrom, if_pos hc, if_pos rfl]
    exact ih htail

/-- The words of a text are those of the stripped text. -/
theorem splitChars_stripChars (cs : List Char) : splitChars (stripChars cs) = splitChars cs := by
  have hfront : ∀ cs, splitChars (cs.dropWhile isWhitespace) = splitChars cs := by
    intro cs
    induction cs with
    | nil => rfl
    | cons c cs ih =>
      by_cases hc : isWhitespace c
      · rw [List.dropWhile_cons_of_pos hc, ih, splitChars, splitChars, splitFrom, if_pos hc,
          if_pos rfl]
      · rw [List.dropWhile_cons_of_neg hc]
  rw [← hfront cs]
  have hback : cs.dropWhile isWhitespace =
      stripChars cs ++ ((cs.dropWhile isWhitespace).reverse.takeWhile isWhitespace).reverse := by
    rw [stripChars, ← List.reverse_append, List.takeWhile_append_dropWhile, List.reverse_reverse]
  have hblank : ∀ c ∈ ((cs.dropWhile isWhitespace).reverse.takeWhile isWhitespace).reverse,
      isWhitespace c := fun c hc => List.mem_takeWhile_imp (List.mem_reverse.mp hc)
  rw [hback]
  cases hafter : ((cs.dropWhile isWhitespace).reverse.takeWhile isWhitespace).reverse with
  | nil => rw [List.append_nil]
  | cons c after =>
    rw [hafter] at hblank
    obtain ⟨hc, htail⟩ := List.forall_mem_cons.mp hblank
    rw [splitChars_append hc, splitChars_blank htail, List.append_nil]

/-- The characters of a word are of the text. -/
theorem mem_of_mem_splitChars {cs word : List Char} (h : word ∈ splitChars cs) :
    ∀ c ∈ word, c ∈ cs := by
  generalize hwords : splitChars cs = words at h
  induction words generalizing cs with
  | nil => exact absurd h List.not_mem_nil
  | cons first more ih =>
    obtain ⟨before, rest, rfl, -, -, -, -, hmore⟩ := splitChars_cons hwords
    intro c hc
    rcases List.mem_cons.mp h with rfl | hlater
    · simp [hc]
    · simp [ih hmore hlater c hc]

/-! ## `re.search` -/

/-- A piece of a pattern. -/
inductive Piece where
  | char (c : Char)
  /-- `\s+`. -/
  | spaces
  deriving DecidableEq, Repr

/-- The characters `re.IGNORECASE` takes for a small letter: itself, its
capital, and the long s or the Kelvin sign. -/
def ignoringCase (c d : Char) : Bool :=
  d = c ∨ d = c.toUpper ∨ c = 's' ∧ d = 'ſ' ∨ c = 'k' ∧ d = '\u212a'

/-- `re.fullmatch`, of the pieces one after the other. -/
def fullmatch : List Piece → List Char → Bool
  | [], [] => true
  | .char c :: pieces, d :: ds => ignoringCase c d && fullmatch pieces ds
  | .spaces :: pieces, d :: ds =>
    isWhitespace d && (fullmatch pieces ds || fullmatch (.spaces :: pieces) ds)
  | _, _ => false

/-- `re.search`, of a list of alternatives. -/
def search (alternatives : List (List Piece)) (cs : List Char) : Bool :=
  cs.tails.any fun tail => tail.inits.any fun m => alternatives.any (fullmatch · m)

theorem search_iff {alternatives : List (List Piece)} {cs : List Char} :
    search alternatives cs ↔ ∃ m, m <:+: cs ∧ ∃ pieces ∈ alternatives, fullmatch pieces m := by
  unfold search
  simp only [List.any_eq_true, List.mem_tails, List.mem_inits, List.infix_iff_prefix_suffix]
  constructor
  · rintro ⟨tail, htail, m, hm, h⟩
    exact ⟨m, ⟨tail, hm, htail⟩, h⟩
  · rintro ⟨m, ⟨tail, hm, htail⟩, h⟩
    exact ⟨tail, htail, m, hm, h⟩

/-- A pattern that starts and ends with a character that no whitespace is
taken for. -/
def Solid (pieces : List Piece) : Prop :=
  (∃ c rest, pieces = .char c :: rest ∧ ∀ d, ignoringCase c d → isWhitespace d = false) ∧
    ∃ c rest, pieces = rest ++ [.char c] ∧ ∀ d, ignoringCase c d → isWhitespace d = false

theorem fullmatch_concat {pieces : List Piece} {c : Char} {m : List Char}
    (h : fullmatch (pieces ++ [.char c]) m) : ∃ d ∈ m.getLast?, ignoringCase c d := by
  have hlater : ∀ {d : Char} {ds : List Char}, (∃ e ∈ ds.getLast?, ignoringCase c e) →
      ∃ e ∈ (d :: ds).getLast?, ignoringCase c e := by
    rintro d ds ⟨e, he, hmatch⟩
    refine ⟨e, ?_, hmatch⟩
    rw [Option.mem_def, List.getLast?_cons, Option.mem_def.mp he]
    rfl
  induction m generalizing pieces with
  | nil =>
    cases pieces with
    | nil => exact absurd h (by simp [fullmatch])
    | cons piece pieces => cases piece <;> exact absurd h (by simp [fullmatch])
  | cons d ds ih =>
    cases pieces with
    | nil =>
      rw [List.nil_append, fullmatch, Bool.and_eq_true] at h
      cases ds with
      | nil => exact ⟨d, rfl, h.1⟩
      | cons e ds => exact absurd h.2 (by simp [fullmatch])
    | cons piece pieces =>
      cases piece with
      | char e =>
        rw [List.cons_append, fullmatch, Bool.and_eq_true] at h
        exact hlater (ih h.2)
      | spaces =>
        rw [List.cons_append, fullmatch, Bool.and_eq_true, Bool.or_eq_true] at h
        rcases h.2 with hdone | hmore
        · exact hlater (ih hdone)
        · exact hlater (@ih (.spaces :: pieces) hmore)

/-- **A search for such patterns finds the same in the stripped text.** -/
theorem search_stripChars {alternatives : List (List Piece)}
    (hsolid : ∀ pieces ∈ alternatives, Solid pieces) (cs : List Char) :
    search alternatives (stripChars cs) = search alternatives cs := by
  rw [Bool.eq_iff_iff, search_iff, search_iff]
  refine exists_congr fun m => ?_
  refine and_congr_left fun ⟨pieces, hpieces, hmatch⟩ => ?_
  obtain ⟨⟨c, rest, hfront, hc⟩, d, front, hback, hd⟩ := hsolid pieces hpieces
  refine infix_stripChars_iff ?_ ?_
  · intro e he
    cases m with
    | nil => exact absurd he (by simp)
    | cons e' m =>
      obtain rfl := Option.some.inj he
      rw [hfront, fullmatch, Bool.and_eq_true] at hmatch
      exact hc e' hmatch.1
  · intro e he
    rw [hback] at hmatch
    obtain ⟨e', he', hmatch⟩ := fullmatch_concat hmatch
    obtain rfl := Option.some.inj (he.symm.trans he')
    exact hd e hmatch

end PythonText

end AgentReliability
