import Mathlib.Data.List.Infix
import Mathlib.Tactic.Common
/-!
# The commands of a shell text

How a POSIX shell reads a text: quotes group characters, a line feed and the
control operators separate commands, blanks separate words, redirections
have targets, a word that starts with a hash starts a comment, and a
backslash before a line feed joins two lines. What is between `${` and its
brace is of one word. Reserved words are not read, and what an expansion
stands for is not. A substitution is where the reading ends, and so is a text
that shells differ on.

The characters are read one at a time. What is said of a reading is said of
one step first.
-/

namespace AgentReliability

namespace ShellWords

/-- A word, with what was quoted of it. -/
abbrev Word := List (Char × Bool)

/-- The text of a word, once the quotes are removed. -/
def Word.text (word : Word) : List Char := word.map Prod.fst

/-- A word that is not quoted. -/
def bareWord (text : List Char) : Word := text.map fun c => (c, false)

/-- A simple command: its words, and the targets of its redirections. -/
structure Command where
  words : List Word := []
  targets : List Word := []
  deriving DecidableEq, Repr

/-- What a text is within: quotes, a comment, or the braces of an expansion,
which can stand between double quotes. -/
inductive Inside where
  | single
  | double
  | comment
  | expansion (quoted : Bool)
  deriving DecidableEq, Repr

/-- Why nothing more is read. -/
inductive Ended where
  | syntaxError
  | substitution
  /-- Shells differ on what is meant. -/
  | unspecified
  deriving DecidableEq, Repr

structure Reader where
  /-- What is open, the innermost first. -/
  inside : List Inside := []
  /-- A backslash was read. -/
  escaped : Bool := false
  /-- A dollar was read that has no meaning yet. -/
  dollar : Bool := false
  /-- The redirection operator that was read. -/
  operator : List Char := []
  /-- The next word is the target of a redirection. -/
  target : Bool := false
  /-- The word that is being read. -/
  word : Option Word := none
  /-- The command that is being read. -/
  command : Command := {}
  /-- The commands before it. -/
  commands : List Command := []
  ended : Option Ended := none
  deriving DecidableEq, Repr

def isBlankChar (c : Char) : Bool := c = ' ' ∨ c = '\t'

def isSeparator (c : Char) : Bool := c ∈ ['\n', ';', '&', '|']

def redirections : List (List Char) :=
  ["<", ">", "<<", "<<-", ">>", "<&", ">&", "<>", ">|"].map String.toList

/-- The number before a redirection is of a descriptor. -/
def isNumber (word : Option Word) : Bool :=
  word.any fun word => word ≠ [] && word.all fun (c, quoted) => c.isDigit && !quoted

namespace Reader

/-! ## One character -/

def add (r : Reader) (c : Char) (quoted : Bool) : Reader :=
  { r with word := some (r.word.getD [] ++ [(c, quoted)]) }

def endWord (r : Reader) : Reader :=
  match r.word with
  | none => r
  | some word =>
    if r.target then
      { r with
        word := none
        target := false
        command := { r.command with targets := r.command.targets ++ [word] } }
    else { r with word := none, command := { r.command with words := r.command.words ++ [word] } }

/-- A command ends. A redirection without a target is an error. -/
def endCommand (r : Reader) : Reader :=
  let r := r.endWord
  if r.target then { r with ended := some .syntaxError }
  else if r.command = {} then r
  else { r with command := {}, commands := r.commands ++ [r.command] }

/-- A redirection starts. -/
def redirect (r : Reader) : Reader :=
  let r := if isNumber r.word then { r with word := none } else r.endWord
  if r.target then { r with ended := some .syntaxError } else { r with target := true }

def quote (r : Reader) (inside : Inside) : Reader :=
  { r with inside := inside :: r.inside, word := some (r.word.getD []) }

/-- The brace after a dollar. -/
def expand (r : Reader) (quoted : Bool) : Reader :=
  { r with dollar := false, inside := .expansion quoted :: r.inside }.add '{' quoted

/-- Two dollars are the number of the process. -/
def isDollar (r : Reader) (c : Char) : Bool := c = '$' ∧ r.dollar = false

/-- A character outside quotes and comments. Shells differ on what a
parenthesis is that is behind no dollar, a single quote or a bracket behind
one, and a third angle bracket. -/
def readText (r : Reader) (c : Char) : Reader :=
  if r.escaped then
    -- a line that goes on
    if c = '\n' then { r with escaped := false }
    else { r with escaped := false, operator := [], dollar := false }.add c true
  else if c = '\\' then { r with escaped := true }
  else if r.operator ≠ [] ∧ r.operator ++ [c] ∈ redirections then
    { r with operator := r.operator ++ [c], dollar := false }
  else if c = '<' ∧ r.operator = ['<', '<'] then { r with ended := some .unspecified }
  else if c = '<' ∨ c = '>' then { r.redirect with operator := [c], dollar := false }
  else if c = '`' ∨ c = '(' ∧ r.dollar then { r with ended := some .substitution }
  else if c = '(' ∨ c ∈ ['\'', '['] ∧ r.dollar then { r with ended := some .unspecified }
  else if c = '{' ∧ r.dollar then r.expand false
  else
    let r := { r with operator := [], dollar := r.isDollar c }
    if isBlankChar c then r.endWord
    else if isSeparator c then r.endCommand
    else if c = '\'' then r.quote .single
    else if c = '"' then r.quote .double
    else if c = '#' ∧ r.word = none then { r with inside := [.comment] }
    else r.add c false

/-- A character between double quotes. -/
def readDouble (r : Reader) (outer : List Inside) (c : Char) : Reader :=
  if r.escaped then
    if c = '\n' then { r with escaped := false }
    else
      let r := { r with escaped := false, dollar := false }
      if c ∈ ['$', '`', '"', '\\'] then r.add c true else (r.add '\\' true).add c true
  else if c = '\\' then { r with escaped := true }
  else if c = '`' ∨ c = '(' ∧ r.dollar then { r with ended := some .substitution }
  else if c = '[' ∧ r.dollar then { r with ended := some .unspecified }
  else if c = '{' ∧ r.dollar then r.expand true
  else
    let r := { r with dollar := r.isDollar c }
    if c = '"' then { r with inside := outer } else r.add c true

/-- A character between the braces of an expansion. When that is between
double quotes, shells differ on whether a single quote there quotes. -/
def readExpansion (r : Reader) (quoted : Bool) (outer : List Inside) (c : Char) : Reader :=
  if r.escaped then
    if c = '\n' then { r with escaped := false }
    else
      let r := { r with escaped := false, dollar := false }
      if quoted ∧ c ∉ ['$', '`', '"', '\\', '}'] then (r.add '\\' true).add c true
      else r.add c true
  else if c = '\\' then { r with escaped := true }
  else if c = '`' ∨ c = '(' ∧ r.dollar then { r with ended := some .substitution }
  else if c = '(' ∧ ¬ quoted ∨ c = '\'' ∧ quoted ∨ c ∈ ['\'', '['] ∧ r.dollar then
    { r with ended := some .unspecified }
  else if c = '{' ∧ r.dollar then r.expand quoted
  else
    let r := { r with dollar := r.isDollar c }
    if c = '\'' then r.quote .single
    else if c = '"' then r.quote .double
    else if c = '}' then { r with inside := outer }.add c quoted
    else r.add c quoted

def step (r : Reader) (c : Char) : Reader :=
  if r.ended.isSome then r
  else match r.inside with
  | [] => r.readText c
  | .double :: outer => r.readDouble outer c
  | .expansion quoted :: outer => r.readExpansion quoted outer c
  | .single :: outer => if c = '\'' then { r with inside := outer } else r.add c true
  | .comment :: outer => if c = '\n' then { r with inside := outer }.endCommand else r

def read (r : Reader) (text : List Char) : Reader := text.foldl step r

/-- The text ends. A command with an open quote or brace is not started. -/
def finish (r : Reader) : Reader :=
  if r.ended.isSome ∨ (r.inside ≠ [] ∧ r.inside ≠ [.comment]) then r
  else (if r.escaped then r.add '\\' false else r).endCommand

end Reader

/-- A text, read to its end. -/
def readAll (text : List Char) : Reader := (Reader.read {} text).finish

/-- The blanks of an expansion end no word. -/
example : (readAll "A=${x:-1 ls } rm x".toList).commands = [⟨[bareWord "A=${x:-1 ls }".toList,
    bareWord "rm".toList, bareWord "x".toList], []⟩] := by
  decide +kernel

/-! ## Assignments -/

def isNameStart (c : Char) : Bool := c = '_' ∨ c.isAlpha

def isNameChar (c : Char) : Bool := c = '_' ∨ c.isAlphanum

def isBareNameChar (x : Char × Bool) : Bool := !x.2 && isNameChar x.1

/-- The word is an assignment: a name and an equals sign, not quoted. -/
def isAssignment : Word → Bool
  | [] => false
  | (c, quoted) :: rest => !quoted && isNameStart c &&
      (rest.dropWhile isBareNameChar).head? = some ('=', false)

theorem isAssignment_cons {c : Char} {quoted : Bool} {rest : Word} :
    isAssignment ((c, quoted) :: rest) ↔ quoted = false ∧ isNameStart c ∧
      (rest.dropWhile isBareNameChar).head? = some ('=', false) := by
  simp [isAssignment, and_assoc]

theorem isAssignment_append {word : Word} (h : isAssignment word) (rest : Word) :
    isAssignment (word ++ rest) := by
  cases word with
  | nil => exact absurd h (by simp [isAssignment])
  | cons x word =>
    obtain ⟨c, quoted⟩ := x
    obtain ⟨hquoted, hc, hhead⟩ := isAssignment_cons.mp h
    refine isAssignment_cons.mpr ⟨hquoted, hc, ?_⟩
    obtain ⟨tail, htail⟩ := List.head?_eq_some_iff.mp hhead
    show ((word ++ rest).dropWhile isBareNameChar).head? = _
    rw [List.dropWhile_append, htail, if_neg (by simp)]
    rfl

theorem not_isDigit_of_isNameStart {c : Char} (h : isNameStart c) : c.isDigit = false := by
  by_contra hdigit
  have halpha : c.isAlpha =
      (decide (c.val ≥ 65 ∧ c.val ≤ 90) || (decide (c.val ≥ 97) && decide (c.val ≤ 122))) := rfl
  simp only [isNameStart, halpha, Char.isDigit,
    Bool.or_eq_true, Bool.and_eq_true, decide_eq_true_eq, Bool.not_eq_false,
    UInt32.le_iff_toNat_le, ge_iff_le] at h hdigit
  change 48 ≤ c.toNat ∧ c.toNat ≤ 57 at hdigit
  rcases h with rfl | h | h
  · exact absurd hdigit (by decide)
  · change 65 ≤ c.toNat ∧ c.toNat ≤ 90 at h
    omega
  · change 97 ≤ c.toNat ∧ c.toNat ≤ 122 at h
    omega

/-- An assignment is not the number of a descriptor. -/
theorem isNumber_of_isAssignment {word : Word} (h : isAssignment word) :
    isNumber (some word) = false := by
  cases word with
  | nil => exact absurd h (by simp [isAssignment])
  | cons x word =>
    obtain ⟨c, quoted⟩ := x
    simp [isNumber, not_isDigit_of_isNameStart (isAssignment_cons.mp h).2.1]

theorem isAssignment_bareWord {c : Char} {name rest : List Char} (hc : isNameStart c)
    (hname : ∀ d ∈ name, isNameChar d) : isAssignment (bareWord (c :: name ++ '=' :: rest)) := by
  have hdrop : (bareWord (name ++ '=' :: rest)).dropWhile isBareNameChar =
      bareWord ('=' :: rest) := by
    unfold bareWord
    rw [List.map_append, List.dropWhile_append_of_pos]
    · exact List.dropWhile_cons_of_neg (by decide)
    · intro x hx
      obtain ⟨d, hd, rfl⟩ := List.mem_map.mp hx
      exact hname d hd
  show isAssignment ((c, false) :: bareWord (name ++ '=' :: rest)) = true
  rw [isAssignment_cons, hdrop]
  exact ⟨rfl, hc, rfl⟩

namespace Reader

variable {r : Reader} {c : Char}

theorem eq_of_isDollar (h : r.isDollar c) : c = '$' := by
  simp only [isDollar, decide_eq_true_eq] at h
  exact h.1

theorem isDollar_of_ne (hc : c ≠ '$') : r.isDollar c = false := by
  simp [isDollar, hc]

/-! ## What a step does to the commands -/

/-- A step extends the command that is read, or ends it. -/
def Extends (r r' : Reader) : Prop :=
  r'.commands = r.commands ∧ r.command.words <+: r'.command.words ∨
    ∃ k, r'.commands = r.commands ++ [k] ∧ r.command.words <+: k.words

theorem Extends.same {r' : Reader} (hcommands : r'.commands = r.commands)
    (hwords : r'.command.words = r.command.words) : Extends r r' :=
  .inl ⟨hcommands, hwords ▸ List.prefix_rfl⟩

theorem endWord_extends (r : Reader) :
    r.endWord.commands = r.commands ∧ r.command.words <+: r.endWord.command.words := by
  unfold endWord
  split
  · exact ⟨rfl, List.prefix_rfl⟩
  · split
    · exact ⟨rfl, List.prefix_rfl⟩
    · exact ⟨rfl, List.prefix_append _ _⟩

theorem endCommand_extends (r : Reader) : Extends r r.endCommand := by
  obtain ⟨hcommands, hwords⟩ := endWord_extends r
  unfold endCommand
  dsimp only
  split
  · exact .inl ⟨hcommands, hwords⟩
  · split
    · exact .inl ⟨hcommands, hwords⟩
    · exact .inr ⟨r.endWord.command, by rw [hcommands], hwords⟩

theorem redirect_extends (r : Reader) :
    r.redirect.commands = r.commands ∧ r.command.words <+: r.redirect.command.words := by
  unfold redirect
  by_cases hnumber : isNumber r.word
  · rw [if_pos hnumber]
    dsimp only
    split <;> exact ⟨rfl, List.prefix_rfl⟩
  · rw [if_neg hnumber]
    dsimp only
    split <;> exact endWord_extends r

theorem readText_extends (r : Reader) (c : Char) : Extends r (r.readText c) := by
  unfold readText
  split
  · split <;> exact .same rfl rfl
  · split
    · exact .same rfl rfl
    · split
      · exact .same rfl rfl
      · split
        · exact .same rfl rfl
        · split
          · exact .inl (redirect_extends r)
          · split
            · exact .same rfl rfl
            · split
              · exact .same rfl rfl
              · split
                · exact .same rfl rfl
                · dsimp only
                  split
                  · exact .inl (endWord_extends _)
                  · split
                    · exact endCommand_extends { r with operator := [], dollar := r.isDollar c }
                    · split
                      · exact .same rfl rfl
                      · split
                        · exact .same rfl rfl
                        · split <;> exact .same rfl rfl

theorem readDouble_extends (r : Reader) (outer : List Inside) (c : Char) :
    Extends r (r.readDouble outer c) := by
  unfold readDouble
  split
  · split
    · exact .same rfl rfl
    · dsimp only
      split <;> exact .same rfl rfl
  · split
    · exact .same rfl rfl
    · split
      · exact .same rfl rfl
      · split
        · exact .same rfl rfl
        · split
          · exact .same rfl rfl
          · dsimp only
            split <;> exact .same rfl rfl

theorem readExpansion_extends (r : Reader) (quoted : Bool) (outer : List Inside) (c : Char) :
    Extends r (r.readExpansion quoted outer c) := by
  unfold readExpansion
  split
  · split
    · exact .same rfl rfl
    · dsimp only
      split <;> exact .same rfl rfl
  · split
    · exact .same rfl rfl
    · split
      · exact .same rfl rfl
      · split
        · exact .same rfl rfl
        · split
          · exact .same rfl rfl
          · dsimp only
            split
            · exact .same rfl rfl
            · split
              · exact .same rfl rfl
              · split <;> exact .same rfl rfl

theorem step_extends (r : Reader) (c : Char) : Extends r (r.step c) := by
  unfold step
  split
  · exact .same rfl rfl
  · split
    · exact readText_extends r c
    · exact readDouble_extends r _ c
    · exact readExpansion_extends r _ _ c
    · split <;> exact .same rfl rfl
    · next outer _ =>
      split
      · exact endCommand_extends { r with inside := outer }
      · exact .same rfl rfl

/-- The first command starts with the words. -/
def Starts (words : List Word) (r : Reader) : Prop :=
  r.commands = [] ∧ words <+: r.command.words ∨
    ∃ k ks, r.commands = k :: ks ∧ words <+: k.words

theorem Starts.extends {words : List Word} {r' : Reader} (h : Starts words r)
    (hext : Extends r r') : Starts words r' := by
  rcases h with ⟨hnone, hwords⟩ | ⟨k, ks, hcommands, hwords⟩
  · rcases hext with ⟨hsame, hmore⟩ | ⟨k, hended, hmore⟩
    · exact .inl ⟨hsame.trans hnone, hwords.trans hmore⟩
    · exact .inr ⟨k, [], by rw [hended, hnone, List.nil_append], hwords.trans hmore⟩
  · rcases hext with ⟨hsame, -⟩ | ⟨k', hended, -⟩
    · exact .inr ⟨k, ks, hsame.trans hcommands, hwords⟩
    · exact .inr ⟨k, ks ++ [k'], by rw [hended, hcommands, List.cons_append], hwords⟩

theorem Starts.read {words : List Word} (h : Starts words r) (text : List Char) :
    Starts words (r.read text) := by
  induction text generalizing r with
  | nil => exact h
  | cons c text ih => exact ih (h.extends (step_extends r c))

theorem Starts.finish {words : List Word} (h : Starts words r) : Starts words r.finish := by
  unfold Reader.finish
  split
  · exact h
  · split
    · exact h.extends (endCommand_extends (r.add '\\' false))
    · exact h.extends (endCommand_extends r)

/-! ## Between words -/

/-- The reading, apart from the commands. -/
def bare (r : Reader) : Reader := { r with command := {}, commands := [] }

theorem bare_endWord (r : Reader) : r.endWord.bare = r.bare.endWord.bare := by
  unfold endWord
  show _ = (match r.word with | none => r.bare | some word => _).bare
  split
  · rfl
  · show _ = (if r.target then _ else _ : Reader).bare
    split <;> rfl

theorem target_endWord (r : Reader) : r.endWord.target = r.bare.endWord.target := by
  show r.endWord.bare.target = r.bare.endWord.bare.target
  rw [bare_endWord]

theorem bare_endCommand (r : Reader) : r.endCommand.bare = r.bare.endCommand.bare := by
  have hword := bare_endWord r
  have htarget := target_endWord r
  have hany : ∀ r : Reader, r.endWord.target = false → r.endCommand.bare = r.endWord.bare := by
    intro r htarget
    unfold endCommand
    dsimp only
    rw [if_neg (by simp [htarget])]
    split <;> rfl
  by_cases hpending : r.endWord.target
  · unfold endCommand
    dsimp only
    rw [if_pos hpending, if_pos (htarget ▸ hpending)]
    show ({ r.endWord.bare with ended := some .syntaxError } : Reader) =
      { r.bare.endWord.bare with ended := some .syntaxError }
    rw [hword]
  · rw [Bool.not_eq_true] at hpending
    rw [hany r hpending, hany r.bare (htarget ▸ hpending), hword]

theorem bare_redirect (r : Reader) : r.redirect.bare = r.bare.redirect.bare := by
  unfold redirect
  by_cases hnumber : isNumber r.word
  · have hbare : isNumber r.bare.word := hnumber
    rw [if_pos hnumber, if_pos hbare]
    show (if r.target then _ else _ : Reader).bare = (if r.target then _ else _ : Reader).bare
    split <;> rfl
  · have hbare : ¬ isNumber r.bare.word := hnumber
    rw [if_neg hnumber, if_neg hbare]
    dsimp only
    by_cases htarget : r.endWord.target
    · rw [if_pos htarget, if_pos (target_endWord r ▸ htarget)]
      show ({ r.endWord.bare with ended := some .syntaxError } : Reader) =
        { r.bare.endWord.bare with ended := some .syntaxError }
      rw [bare_endWord r]
    · rw [if_neg htarget, if_neg (target_endWord r ▸ htarget)]
      show ({ r.endWord.bare with target := true } : Reader) =
        { r.bare.endWord.bare with target := true }
      rw [bare_endWord r]

theorem bare_readText (r : Reader) (c : Char) : (r.readText c).bare = (r.bare.readText c).bare := by
  unfold readText
  show _ = (if r.escaped then _ else _ : Reader).bare
  split
  · split <;> rfl
  · split
    · rfl
    · show _ = (if r.operator ≠ [] ∧ r.operator ++ [c] ∈ redirections then _ else _ : Reader).bare
      split
      · rfl
      · show _ = (if c = '<' ∧ r.operator = ['<', '<'] then _ else _ : Reader).bare
        split
        · rfl
        · split
          · show ({ r.redirect.bare with operator := [c], dollar := false } : Reader) =
              { r.bare.redirect.bare with operator := [c], dollar := false }
            rw [bare_redirect r]
          · show _ = (if c = '`' ∨ c = '(' ∧ r.dollar then _ else _ : Reader).bare
            split
            · rfl
            · show _ = (if c = '(' ∨ c ∈ ['\'', '['] ∧ r.dollar then _ else _ : Reader).bare
              split
              · rfl
              · show _ = (if c = '{' ∧ r.dollar then _ else _ : Reader).bare
                split
                · rfl
                · dsimp only
                  split
                  · exact bare_endWord { r with operator := [], dollar := r.isDollar c }
                  · split
                    · exact bare_endCommand { r with operator := [], dollar := r.isDollar c }
                    · split
                      · rfl
                      · split
                        · rfl
                        · show _ = (if c = '#' ∧ r.word = none then _ else _ : Reader).bare
                          split <;> rfl

theorem bare_readDouble (r : Reader) (outer : List Inside) (c : Char) :
    (r.readDouble outer c).bare = (r.bare.readDouble outer c).bare := by
  unfold readDouble
  show _ = (if r.escaped then _ else _ : Reader).bare
  split
  · split
    · rfl
    · dsimp only
      split <;> rfl
  · split
    · rfl
    · show _ = (if c = '`' ∨ c = '(' ∧ r.dollar then _ else _ : Reader).bare
      split
      · rfl
      · show _ = (if c = '[' ∧ r.dollar then _ else _ : Reader).bare
        split
        · rfl
        · show _ = (if c = '{' ∧ r.dollar then _ else _ : Reader).bare
          split
          · rfl
          · dsimp only
            split <;> rfl

theorem bare_readExpansion (r : Reader) (quoted : Bool) (outer : List Inside) (c : Char) :
    (r.readExpansion quoted outer c).bare = (r.bare.readExpansion quoted outer c).bare := by
  unfold readExpansion
  show _ = (if r.escaped then _ else _ : Reader).bare
  split
  · split
    · rfl
    · dsimp only
      split <;> rfl
  · split
    · rfl
    · show _ = (if c = '`' ∨ c = '(' ∧ r.dollar then _ else _ : Reader).bare
      split
      · rfl
      · show _ = (if c = '(' ∧ ¬ quoted ∨ c = '\'' ∧ quoted ∨ c ∈ ['\'', '['] ∧ r.dollar then _
          else _ : Reader).bare
        split
        · rfl
        · show _ = (if c = '{' ∧ r.dollar then _ else _ : Reader).bare
          split
          · rfl
          · dsimp only
            split
            · rfl
            · split
              · rfl
              · split <;> rfl

/-- A step does not look at the commands that were read. -/
theorem bare_step (r : Reader) (c : Char) : (r.step c).bare = (r.bare.step c).bare := by
  unfold step
  show _ = (if r.ended.isSome then _ else match r.inside with
    | [] => r.bare.readText c
    | .double :: outer => r.bare.readDouble outer c
    | .expansion quoted :: outer => r.bare.readExpansion quoted outer c
    | .single :: outer => _
    | .comment :: outer => _ : Reader).bare
  split
  · rfl
  · split
    · exact bare_readText r c
    · exact bare_readDouble r _ c
    · exact bare_readExpansion r _ _ c
    · split <;> rfl
    · next outer _ =>
      split
      · exact bare_endCommand { r with inside := outer }
      · rfl

theorem bare_read (r : Reader) (text : List Char) : (r.read text).bare = (r.bare.read text).bare := by
  induction text generalizing r with
  | nil => rfl
  | cons c text ih =>
    show ((r.step c).read text).bare = ((r.bare.step c).read text).bare
    rw [ih (r.step c), ih (r.bare.step c), bare_step]

/-- The words are those of the command, and no other is being read. -/
structure Between (words : List Word) (r : Reader) : Prop where
  bare : r.bare = {}
  commands : r.commands = []
  words : r.command.words = words

/-- The reading, if a word ended here. -/
def settle (r : Reader) : Reader := { r with operator := [], dollar := false }.endWord

/-- The words are those of the command, the last of which may go on. -/
def At (words : List Word) (r : Reader) : Prop := Between words r.settle

theorem inside_endWord (r : Reader) : r.endWord.inside = r.inside := by
  unfold endWord
  split
  · rfl
  · split <;> rfl

theorem escaped_endWord (r : Reader) : r.endWord.escaped = r.escaped := by
  unfold endWord
  split
  · rfl
  · split <;> rfl

theorem ended_endWord (r : Reader) : r.endWord.ended = r.ended := by
  unfold endWord
  split
  · rfl
  · split <;> rfl

section

variable {words : List Word}

theorem Between.at (h : Between words r) : At words r := by
  obtain ⟨inside, escaped, dollar, operator, target, word, command, commands, ended⟩ := r
  obtain ⟨hbare, hcommands, hwords⟩ := h
  obtain ⟨rfl, rfl, rfl, rfl, rfl, rfl, -, -, rfl⟩ := Reader.mk.inj hbare
  exact ⟨rfl, hcommands, hwords⟩

theorem At.inside (h : At words r) : r.inside = [] := by
  have hsettle : r.settle.bare.inside = [] := congrArg Reader.inside h.bare
  exact (inside_endWord { r with operator := [], dollar := false }).symm.trans hsettle

theorem At.escaped (h : At words r) : r.escaped = false := by
  have hsettle : r.settle.bare.escaped = false := congrArg Reader.escaped h.bare
  exact (escaped_endWord { r with operator := [], dollar := false }).symm.trans hsettle

theorem At.ended (h : At words r) : r.ended = none := by
  have hsettle : r.settle.bare.ended = none := congrArg Reader.ended h.bare
  exact (ended_endWord { r with operator := [], dollar := false }).symm.trans hsettle

theorem At.step (h : At words r) : r.step c = r.readText c := by
  unfold Reader.step
  rw [if_neg (by simp [h.ended]), h.inside]

/-- What can follow in a redirection operator. -/
theorem getLast_of_mem_redirections {operator : List Char} (h : operator ++ [c] ∈ redirections) :
    c ∈ ['<', '>', '-', '&', '|'] := by
  have hall : ∀ o ∈ redirections, o.getLast?.all (· ∈ ['<', '>', '-', '&', '|']) = true := by decide
  have hlast := hall _ h
  rw [List.getLast?_concat, Option.all_some, decide_eq_true_eq] at hlast
  exact hlast

/-- A blank ends the word that was read. -/
theorem At.step_blank (h : At words r) (hc : isBlankChar c) : Between words (r.step c) := by
  have hstep : r.step c = r.settle := by
    rw [h.step]
    unfold readText
    rw [if_neg (by simp [h.escaped])]
    simp only [isBlankChar, decide_eq_true_eq] at hc
    have hoperator : r.operator ++ [c] ∉ redirections := by
      intro hmem
      have := getLast_of_mem_redirections hmem
      rcases hc with rfl | rfl <;> revert this <;> decide
    rcases hc with rfl | rfl <;> simp [hoperator, isBlankChar, settle, isDollar]
  rw [hstep]
  exact h

theorem At.endCommand (h : At words r) (hwords : words ≠ []) (operator : List Char) (dollar : Bool) :
    Starts words { r with operator, dollar }.endCommand := by
  have htarget : r.settle.target = false := congrArg target h.bare
  have hcommands : r.settle.commands = [] := h.commands
  have hsame : ∀ operator dollar, ({ r with operator, dollar } : Reader).endWord =
      { r.settle with operator, dollar } := by
    intro operator dollar
    unfold settle Reader.endWord
    dsimp only
    split
    · rfl
    · split <;> rfl
  unfold Reader.endCommand
  dsimp only
  rw [hsame, if_neg (by simp [htarget]), if_neg]
  · exact .inr ⟨r.settle.command, [], by rw [hcommands, List.nil_append], h.words ▸ List.prefix_rfl⟩
  · intro hnil
    exact hwords (h.words.symm.trans (congrArg Command.words hnil))

theorem At.step_newline (h : At words r) (hwords : words ≠ []) : Starts words (r.step '\n') := by
  have hoperator : r.operator ++ ['\n'] ∉ redirections := by
    intro hmem
    exact absurd (getLast_of_mem_redirections hmem) (by decide)
  have hstep : r.step '\n' = { r with operator := [], dollar := false }.endCommand := by
    rw [h.step]
    unfold readText
    rw [if_neg (by simp [h.escaped])]
    simp [hoperator, isBlankChar, isSeparator, isDollar]
  rw [hstep]
  exact h.endCommand hwords [] false

/-- **After its first words**, whatever follows, the first command starts
with them. -/
theorem At.starts (h : At words r) (hwords : words ≠ []) {tail : List Char}
    (htail : ∀ c ∈ tail.head?, isBlankChar c ∨ c = '\n') : Starts words (r.read tail).finish := by
  cases tail with
  | nil =>
    show Starts words r.finish
    unfold Reader.finish
    rw [if_neg (by simp [h.ended, h.inside]), if_neg (by simp [h.escaped])]
    exact h.endCommand hwords r.operator r.dollar
  | cons c tail =>
    show Starts words ((r.step c).read tail).finish
    rcases htail c (by simp) with hblank | rfl
    · have hbetween := h.step_blank hblank
      exact (Starts.read (.inl ⟨hbetween.commands, hbetween.words ▸ List.prefix_rfl⟩) tail).finish
    · exact ((h.step_newline hwords).read tail).finish

end

end Reader

end ShellWords

end AgentReliability
