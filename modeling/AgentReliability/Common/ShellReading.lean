import AgentReliability.Common.ShellWords
/-!
# Words and substitutions of a shell text

A text that is complete on its own, with its quotes and braces closed, is
read as one word, and behind the start of an assignment it stays one. A text
in which no dollar stands before a parenthesis, lines that go on apart, is
read without a substitution.
-/

namespace AgentReliability

namespace ShellWords

namespace Reader

variable {r : Reader} {c : Char}

section

variable {words : List Word}

/-! ## A word -/

/-- The character is one of a word wherever it stands in the text. -/
def isPlain (c : Char) : Bool :=
  c ∉ ['\\', '`', '(', '$', '\'', '"', '#', '<', '>', ' ', '\t', '\n', ';', '&', '|']

theorem step_plain (hbare : r.bare = { word := r.word }) (hc : isPlain c) :
    r.step c = r.add c false := by
  obtain ⟨inside, escaped, dollar, operator, target, word, command, commands, ended⟩ := r
  obtain ⟨rfl, rfl, rfl, rfl, rfl, -, -, -, rfl⟩ := Reader.mk.inj hbare
  simp only [isPlain, List.mem_cons, List.not_mem_nil, or_false, not_or, decide_eq_true_eq] at hc
  obtain ⟨hbackslash, hback, hparen, hdollar, hsingle, hdouble, hhash, hless, hgreater, hspace,
    htab, hnewline, hsemicolon, hand, hpipe⟩ := hc
  simp [step, readText, isBlankChar, isSeparator, isDollar, add, hbackslash, hback, hparen, hdollar,
    hsingle, hdouble, hhash, hless, hgreater, hspace, htab, hnewline, hsemicolon, hand, hpipe]

theorem read_plain {w : Word} (hbare : r.bare = { word := some w }) {text : List Char}
    (htext : ∀ c ∈ text, isPlain c) :
    r.read text = { r with word := some (w ++ bareWord text) } := by
  have hword : r.word = some w := congrArg Reader.word hbare
  induction text generalizing r w with
  | nil =>
    show r = { r with word := some (w ++ []) }
    rw [List.append_nil, ← hword]
  | cons c text ih =>
    obtain ⟨hc, htail⟩ := List.forall_mem_cons.mp htext
    have hstep : r.step c = { r with word := some (w ++ [(c, false)]) } := by
      rw [step_plain (hbare.trans (by rw [hword])) hc, add, hword, Option.getD_some]
    show (r.step c).read text = _
    rw [hstep, ih (w := w ++ [(c, false)]) _ htail rfl, List.append_assoc]
    · rfl
    · show ({ r.bare with word := some (w ++ [(c, false)]) } : Reader) = _
      rw [hbare]

/-- **A plain text is a word.** -/
theorem Between.read_plain (h : Between words r) {text : List Char} (hne : text ≠ [])
    (htext : ∀ c ∈ text, isPlain c) : At (words ++ [bareWord text]) (r.read text) := by
  obtain ⟨inside, escaped, dollar, operator, target, word, command, commands, ended⟩ := r
  obtain ⟨hbare, rfl, rfl⟩ := h
  obtain ⟨rfl, rfl, rfl, rfl, rfl, rfl, -, -, rfl⟩ := Reader.mk.inj hbare
  cases text with
  | nil => exact absurd rfl hne
  | cons c text =>
    obtain ⟨hc, htail⟩ := List.forall_mem_cons.mp htext
    have hstep : step { command } c = { command, word := some [(c, false)] } :=
      step_plain (r := { command }) rfl hc
    show At _ ((step { command } c).read text)
    rw [hstep, Reader.read_plain (w := [(c, false)]) rfl htail]
    exact ⟨rfl, rfl, rfl⟩

/-- What is read of an assignment: the word itself, or the target of a
redirection after it. -/
inductive Assigning (words : List Word) (r : Reader) : Prop where
  | name {w : Word} (commands : r.commands = []) (target : r.target = false)
      (words : r.command.words = words) (reading : r.word = some w)
      (assignment : isAssignment w)
  | target {word : Word} (commands : r.commands = []) (target : r.target = true)
      (words : r.command.words = words ++ [word]) (assignment : isAssignment word)
  | ended (ended : r.ended.isSome)

theorem Assigning.congr {r' : Reader} (h : Assigning words r) (hcommands : r'.commands = r.commands)
    (htarget : r'.target = r.target) (hcommand : r'.command = r.command)
    (hword : r'.word = r.word) (hended : r'.ended = r.ended) : Assigning words r' := by
  cases h with
  | name commands target words reading assignment =>
    exact .name (hcommands.trans commands) (htarget.trans target) (hcommand ▸ words)
      (hword.trans reading) assignment
  | target commands target words assignment =>
    exact .target (hcommands.trans commands) (htarget.trans target) (hcommand ▸ words) assignment
  | ended ended => exact .ended (hended ▸ ended)

theorem Assigning.add (h : Assigning words r) (c : Char) (quoted : Bool) :
    Assigning words (r.add c quoted) := by
  cases h with
  | @name word commands target words reading assignment =>
    refine .name (w := word ++ [(c, quoted)]) commands target words ?_
      (isAssignment_append assignment _)
    show some (r.word.getD [] ++ [(c, quoted)]) = _
    rw [reading, Option.getD_some]
  | target commands target words assignment => exact .target commands target words assignment
  | ended ended => exact .ended ended

theorem Assigning.quote (h : Assigning words r) (inside : Inside) :
    Assigning words (r.quote inside) := by
  cases h with
  | @name word commands target words reading assignment =>
    refine .name (w := word) commands target words ?_ assignment
    show some (r.word.getD []) = _
    rw [reading, Option.getD_some]
  | target commands target words assignment => exact .target commands target words assignment
  | ended ended => exact .ended ended

theorem Assigning.expand (h : Assigning words r) (quoted : Bool) :
    Assigning words (r.expand quoted) := by
  have hopen : Assigning words
      { r with dollar := false, inside := .expansion quoted :: r.inside } :=
    h.congr rfl rfl rfl rfl rfl
  exact hopen.add '{' quoted

theorem Assigning.redirect (h : Assigning words r) : Assigning words r.redirect := by
  cases h with
  | @name word commands target words reading assignment =>
    -- The assignment is a word of the command, and a target is waited for.
    have hend : r.endWord = { r with
        word := none
        command := { r.command with words := r.command.words ++ [word] } } := by
      unfold endWord
      rw [reading]
      simp [target]
    have hredirect : r.redirect = { r with
        target := true
        word := none
        command := { r.command with words := r.command.words ++ [word] } } := by
      unfold Reader.redirect
      have hnumber : ¬ isNumber r.word := by
        rw [reading, isNumber_of_isAssignment assignment]
        exact Bool.false_ne_true
      have htarget : ¬ r.endWord.target := by
        rw [hend]
        exact fun h => Bool.false_ne_true (target.symm.trans h)
      rw [if_neg hnumber]
      dsimp only
      rw [if_neg htarget, hend]
    rw [hredirect]
    exact .target commands rfl (congrArg (· ++ [word]) words) assignment
  | @target word commands target words assignment =>
    by_cases hnumber : isNumber r.word
    · -- The number before the operator is no target, so the one before has none.
      refine .ended ?_
      unfold Reader.redirect
      rw [if_pos hnumber]
      simp [target]
    · cases hword : r.word with
      | none =>
        refine .ended ?_
        simp [Reader.redirect, endWord, hword, target, isNumber]
      | some other =>
        rw [hword] at hnumber
        have hredirect : r.redirect = { r with
            target := true
            word := none
            command := { r.command with targets := r.command.targets ++ [other] } } := by
          unfold Reader.redirect
          rw [hword, if_neg hnumber]
          simp [endWord, hword, target]
        rw [hredirect]
        exact .target commands rfl words assignment
  | ended ended =>
    refine .ended ?_
    unfold Reader.redirect
    by_cases hnumber : isNumber r.word
    · rw [if_pos hnumber]
      dsimp only
      split
      · rfl
      · exact ended
    · rw [if_neg hnumber]
      dsimp only
      split
      · rfl
      · show r.endWord.ended.isSome
        rw [ended_endWord]
        exact ended

theorem Assigning.readText (h : Assigning words r) (hblank : isBlankChar c = false)
    (hseparator : isSeparator c = false) : Assigning words (r.readText c) := by
  have hnext : ∀ operator dollar, Assigning words { r with operator, dollar } :=
    fun _ _ => h.congr rfl rfl rfl rfl rfl
  unfold Reader.readText
  split
  · split
    · exact h.congr rfl rfl rfl rfl rfl
    · have hread : Assigning words { r with escaped := false, operator := [], dollar := false } :=
        h.congr rfl rfl rfl rfl rfl
      exact hread.add c true
  · split
    · exact h.congr rfl rfl rfl rfl rfl
    · split
      · exact hnext _ _
      · split
        · exact .ended rfl
        · split
          · exact h.redirect.congr rfl rfl rfl rfl rfl
          · split
            · exact .ended rfl
            · split
              · exact .ended rfl
              · split
                · exact h.expand false
                · dsimp only
                  rw [hblank, hseparator, if_neg Bool.false_ne_true, if_neg Bool.false_ne_true]
                  split
                  · exact (hnext _ _).quote .single
                  · split
                    · exact (hnext _ _).quote .double
                    · split
                      · exact h.congr rfl rfl rfl rfl rfl
                      · exact (hnext _ _).add c false

theorem Assigning.readDouble (h : Assigning words r) (outer : List Inside) (c : Char) :
    Assigning words (r.readDouble outer c) := by
  unfold Reader.readDouble
  split
  · split
    · exact h.congr rfl rfl rfl rfl rfl
    · have hnext : Assigning words { r with escaped := false, dollar := false } :=
        h.congr rfl rfl rfl rfl rfl
      dsimp only
      split
      · exact hnext.add c true
      · exact (hnext.add '\\' true).add c true
  · split
    · exact h.congr rfl rfl rfl rfl rfl
    · split
      · exact .ended rfl
      · split
        · exact .ended rfl
        · split
          · exact h.expand true
          · have hread : Assigning words { r with dollar := r.isDollar c } :=
              h.congr rfl rfl rfl rfl rfl
            dsimp only
            split
            · exact h.congr rfl rfl rfl rfl rfl
            · exact hread.add c true

theorem Assigning.readExpansion (h : Assigning words r) (quoted : Bool) (outer : List Inside)
    (c : Char) : Assigning words (r.readExpansion quoted outer c) := by
  unfold Reader.readExpansion
  split
  · split
    · exact h.congr rfl rfl rfl rfl rfl
    · have hnext : Assigning words { r with escaped := false, dollar := false } :=
        h.congr rfl rfl rfl rfl rfl
      dsimp only
      split
      · exact (hnext.add '\\' true).add c true
      · exact hnext.add c true
  · split
    · exact h.congr rfl rfl rfl rfl rfl
    · split
      · exact .ended rfl
      · split
        · exact .ended rfl
        · split
          · exact h.expand quoted
          · have hread : Assigning words { r with dollar := r.isDollar c } :=
              h.congr rfl rfl rfl rfl rfl
            dsimp only
            split
            · exact hread.quote .single
            · split
              · exact hread.quote .double
              · split
                · have hclosed : Assigning words { r with dollar := r.isDollar c, inside := outer } :=
                    h.congr rfl rfl rfl rfl rfl
                  exact hclosed.add c quoted
                · exact hread.add c quoted

theorem Assigning.step (h : Assigning words r) (hblank : isBlankChar c = false)
    (hseparator : isSeparator c = false) : Assigning words (r.step c) := by
  unfold Reader.step
  split
  · exact h
  · split
    · exact h.readText hblank hseparator
    · exact h.readDouble _ c
    · exact h.readExpansion _ _ c
    · split
      · exact h.congr rfl rfl rfl rfl rfl
      · exact h.add c true
    · rw [if_neg]
      · exact h
      · rintro rfl
        exact absurd hseparator (by decide)

theorem Assigning.read (h : Assigning words r) {text : List Char}
    (htext : ∀ c ∈ text, isBlankChar c = false ∧ isSeparator c = false) :
    Assigning words (r.read text) := by
  induction text generalizing r with
  | nil => exact h
  | cons c text ih =>
    obtain ⟨hc, htail⟩ := List.forall_mem_cons.mp htext
    exact ih (h.step hc.1 hc.2) htail

/-- The text is complete for the shell: its quotes and the braces of its
expansions are closed, no backslash and no redirection is left open, and it
is not a comment. -/
structure Complete (r : Reader) : Prop where
  inside : r.inside = []
  escaped : r.escaped = false
  ended : r.ended = none
  target : r.target = true → r.word.isSome

/-- An assignment that is complete is one word. -/
theorem Assigning.at (h : Assigning words r) (hcomplete : Complete r) :
    ∃ word, isAssignment word ∧ At (words ++ [word]) r := by
  obtain ⟨inside, escaped, dollar, operator, target, word, command, commands, ended⟩ := r
  obtain ⟨rfl, rfl, rfl, hopen⟩ := hcomplete
  cases h with
  | @name word commands target words reading assignment =>
    obtain rfl := commands
    obtain rfl := target
    obtain rfl := words
    obtain rfl := reading
    exact ⟨word, assignment, rfl, rfl, rfl⟩
  | @target word commands target words assignment =>
    obtain rfl := commands
    obtain rfl := target
    obtain ⟨other, rfl⟩ := Option.isSome_iff_exists.mp (hopen rfl)
    exact ⟨word, assignment, rfl, rfl, words⟩
  | ended ended => exact absurd ended (by simp)

theorem Complete.of_bare {r' : Reader} (h : Complete r) (hbare : r'.bare = r.bare) :
    Complete r' := by
  obtain ⟨inside, escaped, dollar, operator, target, word, command, commands, ended⟩ := r
  obtain ⟨hinside, hescaped, -, -, htarget, hword, -, -, hended⟩ := Reader.mk.inj hbare
  exact ⟨hinside.trans h.inside, hescaped.trans h.escaped, hended.trans h.ended,
    fun hopen => hword ▸ h.target (htarget ▸ hopen)⟩

theorem isPlain_of_isNameChar (hc : isNameChar c) : isPlain c := by
  unfold isPlain
  simp only [decide_eq_true_eq]
  intro hmem
  have hall : ∀ d ∈ ['\\', '`', '(', '$', '\'', '"', '#', '<', '>', ' ', '\t', '\n', ';', '&', '|'],
      isNameChar d = false := List.forall_iff_forall_mem.mp (by decide)
  exact absurd hc (by simp [hall c hmem])

theorem isNameChar_of_isNameStart (hc : isNameStart c) : isNameChar c := by
  simp only [isNameStart, isNameChar, Char.isAlphanum, Bool.or_eq_true, decide_eq_true_eq] at hc ⊢
  exact hc.imp_right .inl

/-- **An assignment that is complete is read as one.** -/
theorem Between.read_assignment (h : Between words r) {name rest : List Char}
    (hc : isNameStart c) (hname : ∀ d ∈ name, isNameChar d)
    (hrest : ∀ d ∈ rest, isBlankChar d = false ∧ isSeparator d = false)
    (hcomplete : Complete (Reader.read {} (c :: name ++ '=' :: rest))) :
    ∃ word, isAssignment word ∧ At (words ++ [word]) (r.read (c :: name ++ '=' :: rest)) := by
  have hbare := bare_read r (c :: name ++ '=' :: rest)
  rw [h.bare] at hbare
  refine Assigning.at ?_ (hcomplete.of_bare hbare)
  have hplain : ∀ d ∈ name ++ ['='], isPlain d := by
    intro d hd
    rcases List.mem_append.mp hd with hd | hd
    · exact isPlain_of_isNameChar (hname d hd)
    · obtain rfl := List.mem_singleton.mp hd
      decide
  have hstep : r.step c = { r with word := some [(c, false)] } := by
    have hword : r.word = none := congrArg Reader.word h.bare
    rw [step_plain (h.bare.trans (by rw [hword]))
      (isPlain_of_isNameChar (isNameChar_of_isNameStart hc)), add, hword]
    rfl
  have hread : r.read (c :: name ++ '=' :: rest) =
      Reader.read { r with word := some ((c, false) :: bareWord (name ++ ['='])) } rest := by
    show (r.step c).read (name ++ '=' :: rest) = _
    have hsplit : name ++ '=' :: rest = name ++ ['='] ++ rest := by simp
    rw [hstep, hsplit, Reader.read, List.foldl_append]
    refine congrArg (fun r => Reader.read r rest) ?_
    refine Reader.read_plain (w := [(c, false)]) ?_ hplain
    show ({ r.bare with word := some [(c, false)] } : Reader) = _
    rw [h.bare]
  have hstart : Assigning words { r with word := some ((c, false) :: bareWord (name ++ ['='])) } :=
    .name h.commands (congrArg Reader.target h.bare) h.words rfl (isAssignment_bareWord hc hname)
  rw [hread]
  exact hstart.read hrest

end

/-! ## Substitutions -/

/-- Lines that go on. -/
def lineJoins (n : ℕ) : List Char := (List.replicate n ['\\', '\n']).flatten

theorem lineJoins_succ (n : ℕ) : lineJoins (n + 1) = lineJoins n ++ ['\\', '\n'] := by
  unfold lineJoins
  rw [List.replicate_succ', List.flatten_append]
  rfl

/-- A dollar is followed by a parenthesis, on the same line or on lines it
goes on to. -/
def OpensSubstitution (text : List Char) : Prop :=
  ∃ before n after, text = before ++ '$' :: lineJoins n ++ '(' :: after

/-- What was read does not end in a substitution, and the dollar is where it
is said to be. -/
structure Scanned (done : List Char) (r : Reader) : Prop where
  ended : r.ended ≠ some .substitution
  quoted : ∀ inside ∈ r.inside.head?, inside = .single ∨ inside = .comment → r.dollar = false
  dollar : r.ended = none → r.dollar = true → ∃ before n, done =
    before ++ '$' :: lineJoins n ++ if r.escaped then ['\\'] else []

theorem Scanned.of_dollar {done : List Char} (hended : r.ended ≠ some .substitution)
    (hdollar : r.dollar = true → c = '$') (hescaped : r.escaped = false)
    (hquoted : ∀ inside ∈ r.inside.head?, ¬ (inside = .single ∨ inside = .comment)) :
    Scanned (done ++ [c]) r := by
  refine ⟨hended, fun inside hin h => absurd h (hquoted inside hin), fun _ h => ⟨done, 0, ?_⟩⟩
  rw [hescaped, hdollar h]
  simp [lineJoins]

theorem Scanned.of_no_dollar {done : List Char} (hended : r.ended ≠ some .substitution)
    (hdollar : r.dollar = false) : Scanned done r :=
  ⟨hended, fun _ _ _ => hdollar, fun _ h => absurd h (by simp [hdollar])⟩

theorem dollar_endWord (r : Reader) : r.endWord.dollar = r.dollar := by
  unfold endWord
  split
  · rfl
  · split <;> rfl

/-- The end of a command can only be an error. -/
theorem endCommand_spec (r : Reader) : r.endCommand.inside = r.inside ∧
    r.endCommand.escaped = r.escaped ∧ r.endCommand.dollar = r.dollar ∧
    (r.endCommand.ended = r.ended ∨ r.endCommand.ended = some .syntaxError) := by
  unfold endCommand
  dsimp only
  split
  · exact ⟨inside_endWord r, escaped_endWord r, dollar_endWord r, .inr rfl⟩
  · split <;> exact ⟨inside_endWord r, escaped_endWord r, dollar_endWord r, .inl (ended_endWord r)⟩

theorem redirect_spec (r : Reader) : r.redirect.ended = r.ended ∨
    r.redirect.ended = some .syntaxError := by
  unfold redirect
  by_cases hnumber : isNumber r.word
  · rw [if_pos hnumber]
    dsimp only
    split
    · exact .inr rfl
    · exact .inl rfl
  · rw [if_neg hnumber]
    dsimp only
    split
    · exact .inr rfl
    · exact .inl (ended_endWord r)

theorem not_substitution {r r' : Reader} (h : r.ended ≠ some .substitution)
    (hor : r'.ended = r.ended ∨ r'.ended = some .syntaxError) : r'.ended ≠ some .substitution := by
  rcases hor with hsame | herror
  · rw [hsame]
    exact h
  · rw [herror]
    decide

section

variable {done : List Char}

/-- A backslash is read, or what it is before. -/
theorem Scanned.escape (h : Scanned done r) (hended : r.ended = none)
    (hescaped : r.escaped = false) :
    Scanned (done ++ ['\\']) { r with escaped := true } := by
  refine ⟨h.ended, h.quoted, fun _ hdollar => ?_⟩
  obtain ⟨before, n, hdone⟩ := h.dollar hended hdollar
  refine ⟨before, n, ?_⟩
  rw [hescaped] at hdone
  rw [hdone]
  simp

theorem Scanned.joinLines (h : Scanned done r) (hended : r.ended = none) (hescaped : r.escaped = true) :
    Scanned (done ++ ['\n']) { r with escaped := false } := by
  refine ⟨h.ended, h.quoted, fun _ hdollar => ?_⟩
  obtain ⟨before, n, hdone⟩ := h.dollar hended hdollar
  refine ⟨before, n + 1, ?_⟩
  rw [hescaped] at hdone
  rw [hdone, lineJoins_succ]
  simp

/-- A parenthesis is not after a dollar. -/
theorem Scanned.not_open (h : Scanned done r) (hended : r.ended = none) (hescaped : r.escaped = false)
    (hopens : ¬ OpensSubstitution (done ++ [c])) : ¬ (c = '(' ∧ r.dollar = true) := by
  rintro ⟨rfl, hdollar⟩
  obtain ⟨before, n, hdone⟩ := h.dollar hended hdollar
  refine hopens ⟨before, n, [], ?_⟩
  rw [hescaped] at hdone
  rw [hdone]
  simp

/-- The character is not one that opens a substitution. -/
theorem Scanned.quiet (h : Scanned done r) (hended : r.ended = none) (hescaped : r.escaped = false)
    (htick : c ≠ '`') (hopens : ¬ OpensSubstitution (done ++ [c])) :
    ¬ (c = '`' ∨ c = '(' ∧ r.dollar = true) := by
  rintro (hc | hc)
  · exact htick hc
  · exact h.not_open hended hescaped hopens hc

theorem Scanned.readText (h : Scanned done r) (hended : r.ended = none) (hinside : r.inside = [])
    (htick : c ≠ '`') (hopens : ¬ OpensSubstitution (done ++ [c])) :
    Scanned (done ++ [c]) (r.readText c) := by
  have hnone : r.ended ≠ some .substitution := h.ended
  have hout : ∀ inside ∈ r.inside.head?, ¬ (inside = .single ∨ inside = .comment) := by
    simp [hinside]
  unfold Reader.readText
  by_cases hescaped : r.escaped
  · rw [if_pos hescaped]
    split
    · next hc =>
      rw [hc]
      exact h.joinLines hended hescaped
    · exact .of_no_dollar hnone rfl
  · rw [if_neg hescaped]
    rw [Bool.not_eq_true] at hescaped
    have hquiet := h.quiet hended hescaped htick hopens
    split
    · next hc =>
      rw [hc]
      exact h.escape hended hescaped
    · split
      · exact .of_no_dollar hnone rfl
      · split
        · exact ⟨by simp, by simp [hinside], fun h => absurd h (by simp)⟩
        · split
          · exact .of_no_dollar (not_substitution hnone (redirect_spec r)) rfl
          · split
            · exact ⟨by simp, by simp [hinside], fun h => absurd h (by simp)⟩
            · split
              · exact .of_no_dollar hnone rfl
              · dsimp only
                split
                · refine .of_dollar ?_ (fun hdollar => ?_) ?_ ?_
                  · rw [ended_endWord]
                    exact hnone
                  · rw [dollar_endWord] at hdollar
                    exact eq_of_isDollar hdollar
                  · rw [escaped_endWord]
                    exact hescaped
                  · rw [inside_endWord]
                    exact hout
                · split
                  · obtain ⟨hin, hesc, hdol, hend⟩ :=
                      endCommand_spec { r with operator := [], dollar := r.isDollar c }
                    refine .of_dollar (not_substitution hnone hend) (fun hdollar => ?_)
                      (hesc.trans hescaped) ?_
                    · exact eq_of_isDollar (hdol.symm.trans hdollar)
                    · rw [hin]
                      exact hout
                  · split
                    · next hc => exact .of_no_dollar hnone (isDollar_of_ne (by simp [hc]))
                    · split
                      · next hc => exact .of_no_dollar hnone (isDollar_of_ne (by simp [hc]))
                      · split
                        · next hc => exact .of_no_dollar hnone (isDollar_of_ne (by simp [hc.1]))
                        · exact .of_dollar hnone eq_of_isDollar hescaped hout

theorem Scanned.readDouble (h : Scanned done r) (hended : r.ended = none) {outer : List Inside}
    (hinside : r.inside = .double :: outer) (htick : c ≠ '`')
    (hopens : ¬ OpensSubstitution (done ++ [c])) :
    Scanned (done ++ [c]) (r.readDouble outer c) := by
  have hnone : r.ended ≠ some .substitution := h.ended
  unfold Reader.readDouble
  by_cases hescaped : r.escaped
  · rw [if_pos hescaped]
    split
    · next hc =>
      rw [hc]
      exact h.joinLines hended hescaped
    · dsimp only
      split <;> exact .of_no_dollar hnone rfl
  · rw [if_neg hescaped]
    rw [Bool.not_eq_true] at hescaped
    have hquiet := h.quiet hended hescaped htick hopens
    split
    · next hc =>
      rw [hc]
      exact h.escape hended hescaped
    · split
      · exact ⟨by simp, by simp [hinside], fun h => absurd h (by simp)⟩
      · split
        · exact .of_no_dollar hnone rfl
        · dsimp only
          split
          · next hc => exact .of_no_dollar hnone (isDollar_of_ne (by simp [hc]))
          · exact .of_dollar hnone eq_of_isDollar hescaped (by simp [add, hinside])

theorem Scanned.readExpansion (h : Scanned done r) (hended : r.ended = none) {quoted : Bool}
    {outer : List Inside} (hinside : r.inside = .expansion quoted :: outer) (htick : c ≠ '`')
    (hopens : ¬ OpensSubstitution (done ++ [c])) :
    Scanned (done ++ [c]) (r.readExpansion quoted outer c) := by
  have hnone : r.ended ≠ some .substitution := h.ended
  unfold Reader.readExpansion
  by_cases hescaped : r.escaped
  · rw [if_pos hescaped]
    split
    · next hc =>
      rw [hc]
      exact h.joinLines hended hescaped
    · dsimp only
      split <;> exact .of_no_dollar hnone rfl
  · rw [if_neg hescaped]
    rw [Bool.not_eq_true] at hescaped
    have hquiet := h.quiet hended hescaped htick hopens
    split
    · next hc =>
      rw [hc]
      exact h.escape hended hescaped
    · split
      · exact ⟨by simp, by simp [hinside], fun h => absurd h (by simp)⟩
      · split
        · exact .of_no_dollar hnone rfl
        · dsimp only
          split
          · next hc => exact .of_no_dollar hnone (isDollar_of_ne (by simp [hc]))
          · split
            · next hc => exact .of_no_dollar hnone (isDollar_of_ne (by simp [hc]))
            · split
              · next hc => exact .of_no_dollar hnone (isDollar_of_ne (by simp [hc]))
              · exact .of_dollar hnone eq_of_isDollar hescaped (by simp [add, hinside])

theorem Scanned.step (h : Scanned done r) (htick : c ≠ '`')
    (hopens : ¬ OpensSubstitution (done ++ [c])) : Scanned (done ++ [c]) (r.step c) := by
  unfold Reader.step
  split
  · next hended =>
    refine ⟨h.ended, h.quoted, fun hnone => ?_⟩
    rw [hnone] at hended
    exact absurd hended (by simp)
  · next hended =>
    rw [Option.not_isSome_iff_eq_none] at hended
    split
    · next hinside => exact h.readText hended hinside htick hopens
    · next hinside => exact h.readDouble hended hinside htick hopens
    · next hinside => exact h.readExpansion hended hinside htick hopens
    · next outer hinside =>
      have hdollar := h.quoted .single (by simp [hinside]) (.inl rfl)
      split <;> exact .of_no_dollar h.ended hdollar
    · next outer hinside =>
      have hdollar := h.quoted .comment (by simp [hinside]) (.inr rfl)
      split
      · obtain ⟨-, -, hdol, hend⟩ := endCommand_spec { r with inside := outer }
        exact .of_no_dollar (not_substitution h.ended hend) (hdol.trans hdollar)
      · exact .of_no_dollar h.ended hdollar

theorem Scanned.read (h : Scanned done r) {text : List Char} (htick : '`' ∉ text)
    (hopens : ¬ OpensSubstitution (done ++ text)) : Scanned (done ++ text) (r.read text) := by
  induction text generalizing r done with
  | nil =>
    rw [List.append_nil]
    exact h
  | cons c text ih =>
    have happend : done ++ c :: text = done ++ [c] ++ text := by simp
    rw [happend] at hopens ⊢
    refine ih (h.step ?_ ?_) (fun hmem => htick (List.mem_cons_of_mem _ hmem)) hopens
    · rintro rfl
      exact htick List.mem_cons_self
    · rintro ⟨before, n, after, heq⟩
      exact hopens ⟨before, n, after ++ text, by rw [heq, List.append_assoc, List.cons_append]⟩

end

end Reader

/-- **A text that opens no substitution** is read without one. -/
theorem readAll_ended {text : List Char} (htick : '`' ∉ text)
    (hopens : ¬ Reader.OpensSubstitution text) : (readAll text).ended ≠ some .substitution := by
  have hstart : Reader.Scanned [] {} := .of_no_dollar (by decide) rfl
  have hread := (hstart.read htick hopens).ended
  unfold readAll Reader.finish
  split
  · exact hread
  · split
    · exact Reader.not_substitution hread (Reader.endCommand_spec (Reader.add _ '\\' false)).2.2.2
    · exact Reader.not_substitution hread (Reader.endCommand_spec _).2.2.2

end ShellWords

end AgentReliability
