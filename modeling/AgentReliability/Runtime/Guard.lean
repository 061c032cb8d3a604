import AgentReliability.Common.PythonWords
import AgentReliability.Common.ShellReading
import Mathlib.Data.List.Forall2
import Mathlib.Data.List.TakeWhile
/-!
# The commands an agent may run

`validate_command` splits a command at whitespace, passes over the
assignments it starts with, and looks for a prefix of its whitelist; the
command is then run by `sh -lc`. The two read the same words where the text
up to the prefix has no whitespace but blanks, and its assignments are
complete for the shell; and they speak of the same command where the text is
one for the shell.
-/

namespace AgentReliability

namespace Runtime

open PythonText ShellWords

/-! ## `guard.py` -/

/-- `ALLOWED_PREFIXES`. -/
def allowedPrefixes : List (List String) := [
  ["pnpm"], ["npm"], ["node"], ["npx", "vitest"], ["tsc"], ["python"], ["python3"], ["pytest"],
  ["uv"], ["pip"], ["git", "status"], ["git", "diff"], ["git", "apply"], ["git", "add"],
  ["git", "stash"], ["ls"], ["cat"]]

/-- `DENYLIST_PATTERN`. -/
def denylistPattern : List (List Piece) :=
  ["curl", "wget", "ssh", "sudo", "docker"].map (fun word => word.toList.map .char) ++
    [[.char 'r', .char 'm', .spaces, .char '-', .char 'r', .char 'f', .spaces, .char '/']]

/-- `SHELL_INJECTION_PATTERN.search`. -/
def hasInjection (text : String) : Bool :=
  text.toList.any (fun c => c ∈ [';', '&', '|', '`']) || contains "$(" text

/-- `ENV_ASSIGNMENT_PATTERN.match`. -/
def isEnvAssignment (token : String) : Bool :=
  match token.toList with
  | [] => false
  | c :: cs => isNameStart c && match cs.dropWhile isNameChar with
    | '=' :: value => value.all fun d => !isWhitespace d
    | _ => false

structure CommandRejected where
  command : String
  reason : String
  deriving DecidableEq, Repr

def CommandRejected.message (e : CommandRejected) : String :=
  "命令被拒绝: " ++ e.reason ++ ": " ++ e.command

/-- `_allowed_prefixes_hint`. -/
def allowedPrefixesHint : String :=
  "允许的命令前缀: " ++ ", ".intercalate (allowedPrefixes.map (" ".intercalate ·)) ++
    "（可带前导 KEY=VALUE 环境变量赋值）"

/-- How many tokens are passed over: `env`, and the assignments. -/
def skipped (tokens : List String) : ℕ :=
  let idx := if tokens.head? = some "env" then 1 else 0
  idx + ((tokens.drop idx).takeWhile isEnvAssignment).length

/-- The prefix the rest of the tokens starts with. -/
def matchedPrefix (rest : List String) : Option (List String) :=
  allowedPrefixes.find? fun words => rest.take words.length = words

def validateCommand (command : String) : Except CommandRejected Unit :=
  let stripped := strip command
  if stripped = "" then .error ⟨command, "空命令"⟩
  else if search denylistPattern stripped.toList then .error ⟨command, "命中 denylist"⟩
  else if hasInjection stripped then
    .error ⟨command, "含 shell 注入元字符（; && || ` $( 均不允许，请拆成多条命令）"⟩
  else
    let tokens := split stripped
    let rest := tokens.drop (skipped tokens)
    if rest = [] then .error ⟨command, "只有环境变量赋值，没有命令"⟩
    else if (matchedPrefix rest).isSome then .ok ()
    else .error ⟨command, "不在白名单。" ++ allowedPrefixesHint⟩

/-- The tokens that were passed over, and those of the prefix. -/
def guardWords (command : String) : List String :=
  let tokens := split (strip command)
  let rest := tokens.drop (skipped tokens)
  tokens.take (skipped tokens) ++ (matchedPrefix rest).getD []

/-! ## What the shell starts -/

/-- An expansion in the word is not quoted: the shell splits what it stands
for. -/
def isSplit (word : Word) : Bool := ('$', false) ∈ word

/-- What `env` passes over: a variable that it sets. -/
def isSetting (word : Word) : Bool := '=' ∈ word.text ∧ isSplit word = false

/-- The words of a command after its assignments and `env`. -/
def operands (command : ShellWords.Command) : List (List Char) :=
  match command.words.dropWhile isAssignment with
  | [] => []
  | word :: rest =>
    (if word.text = "env".toList then rest.dropWhile isSetting else word :: rest).map Word.text

/-- The assignments that are arguments of `env`. -/
def envArguments (command : ShellWords.Command) : List Word :=
  if command.words.head? = some (bareWord "env".toList) then
    command.words.tail.takeWhile isAssignment
  else []

/-- The command is of the whitelist. -/
def Whitelisted (command : ShellWords.Command) : Prop :=
  ∃ words ∈ allowedPrefixes, words.map String.toList <+: operands command

/-- **What the whitelist promises of a text the shell is given**: no
substitution, no command that is not of the whitelist, nothing of the
denylist. -/
structure SoundCommand (command : String) : Prop where
  substitution : (readAll command.toList).ended ≠ some .substitution
  whitelisted : ∀ simple ∈ (readAll command.toList).commands, Whitelisted simple
  denylist : search denylistPattern command.toList = false

/-- **The shell reads the words the guard has read.** -/
structure SameWords (command : String) : Prop where
  /-- Up to the end of the prefix, words are separated by blanks only. -/
  blanks : ∃ before head tail, command.toList = before ++ head ++ tail ∧
    (∀ c ∈ before, isBlankChar c ∨ c = '\n') ∧
    splitChars head = (guardWords command).map String.toList ∧
    (∀ c ∈ head, isWhitespace c → isBlankChar c) ∧ ∀ c ∈ tail.head?, isBlankChar c ∨ c = '\n'
  /-- Quotes, braces, backslashes and redirections of an assignment end within
  it. -/
  complete : ∀ token ∈ guardWords command, Reader.Complete (Reader.read {} token.toList)
  /-- No line feed outside quotes and braces separates two commands. -/
  one : (readAll command.toList).commands.length ≤ 1
  /-- `env` sets what it is given: no argument is split. -/
  whole : ∀ simple ∈ (readAll command.toList).commands, ∀ word ∈ envArguments simple,
    isSplit word = false
  /-- Shells agree: no parenthesis stands outside quotes, no single quote or
  bracket behind a dollar, no single quote in an expansion between double
  quotes, and no angle brackets are three. -/
  specified : (readAll command.toList).ended ≠ some .unspecified
  /-- No line feed is between a dollar and a parenthesis. -/
  joins : ∀ before n after,
    command.toList ≠ before ++ '$' :: Reader.lineJoins (n + 1) ++ '(' :: after

/-! ## What the guard has read -/

theorem isEnvAssignment_spec {token : String} (h : isEnvAssignment token) :
    ∃ c name value, token.toList = c :: name ++ '=' :: value ∧ isNameStart c ∧
      (∀ d ∈ name, isNameChar d) ∧ ∀ d ∈ value, isWhitespace d = false := by
  unfold isEnvAssignment at h
  cases htoken : token.toList with
  | nil => exact absurd h (by simp [htoken])
  | cons c cs =>
    simp only [htoken, Bool.and_eq_true] at h
    obtain ⟨hc, hrest⟩ := h
    split at hrest
    · next value hvalue =>
      refine ⟨c, cs.takeWhile isNameChar, value, ?_, hc, ?_, ?_⟩
      · rw [List.cons_append, ← hvalue, List.takeWhile_append_dropWhile]
      · exact fun d hd => List.mem_takeWhile_imp hd
      · simpa using hrest
    · exact absurd hrest Bool.false_ne_true

/-- The command is accepted exactly if the scans find nothing and a prefix
is matched. -/
theorem validateCommand_eq_ok {command : String} : validateCommand command = .ok () ↔
    strip command ≠ "" ∧ search denylistPattern (strip command).toList = false ∧
      hasInjection (strip command) = false ∧
      (split (strip command)).drop (skipped (split (strip command))) ≠ [] ∧
      (matchedPrefix ((split (strip command)).drop (skipped (split (strip command))))).isSome := by
  unfold validateCommand
  dsimp only
  by_cases hempty : strip command = ""
  · simp [hempty]
  · by_cases hdenylist : search denylistPattern (strip command).toList
    · simp [hempty, hdenylist]
    · by_cases hinjection : hasInjection (strip command)
      · simp [hempty, hdenylist, hinjection]
      · by_cases hrest : (split (strip command)).drop (skipped (split (strip command))) = []
        · rw [if_neg hempty, if_neg hdenylist, if_neg hinjection, if_pos hrest]
          simp [hrest]
        · rw [if_neg hempty, if_neg hdenylist, if_neg hinjection, if_neg hrest]
          split
          · next hmatched => simpa [hempty, hdenylist, hinjection, hrest] using hmatched
          · next hmatched => simp [hmatched]

/-- **An accepted command**: `env` or not, assignments, and a prefix; no
metacharacter and nothing of the denylist. -/
theorem validateCommand_ok {command : String} (h : validateCommand command = .ok ()) :
    search denylistPattern (strip command).toList = false ∧ hasInjection (strip command) = false ∧
      ∃ env assignments words, guardWords command = env ++ assignments ++ words ∧
        (env = [] ∨ env = ["env"]) ∧ (∀ token ∈ assignments, isEnvAssignment token) ∧
        words ∈ allowedPrefixes := by
  obtain ⟨-, hdenylist, hinjection, -, hmatched⟩ := validateCommand_eq_ok.mp h
  obtain ⟨words, hwords⟩ := Option.isSome_iff_exists.mp hmatched
  refine ⟨hdenylist, hinjection, ?_⟩
  set tokens := split (strip command)
  set idx := if tokens.head? = some "env" then 1 else 0 with hidx
  refine ⟨tokens.take idx, (tokens.drop idx).takeWhile isEnvAssignment, words, ?_, ?_,
    fun token htoken => List.mem_takeWhile_imp htoken, List.mem_of_find?_eq_some hwords⟩
  · show tokens.take (skipped tokens) ++ (matchedPrefix _).getD [] = _
    rw [hwords, Option.getD_some]
    show tokens.take (idx + _) ++ words = _
    rw [List.take_add,
      ← List.prefix_iff_eq_take.mp (List.takeWhile_prefix (l := tokens.drop idx) isEnvAssignment)]
  · by_cases henv : tokens.head? = some "env"
    · obtain ⟨rest, hrest⟩ := List.head?_eq_some_iff.mp henv
      rw [hidx, if_pos henv, hrest]
      exact .inr rfl
    · rw [hidx, if_neg henv]
      exact .inl rfl

/-- The tokens that are passed over do not depend on what follows the first
that is not. -/
theorem skipped_append {tokens : List String} (h : tokens.drop (skipped tokens) ≠ [])
    (more : List String) : skipped (tokens ++ more) = skipped tokens := by
  unfold skipped at h ⊢
  have hne : tokens ≠ [] := by
    rintro rfl
    exact h rfl
  have hhead : (tokens ++ more).head? = tokens.head? := List.head?_append_of_ne_nil tokens hne
  rw [hhead]
  dsimp only at h ⊢
  set idx := if tokens.head? = some "env" then 1 else 0 with hidx
  have hle : idx ≤ tokens.length := by
    have hpos := List.length_pos_of_ne_nil hne
    rw [hidx]
    split <;> omega
  rw [List.drop_append_of_le_length hle, List.takeWhile_append, if_neg]
  intro hall
  refine h ?_
  rw [← List.drop_drop, List.drop_eq_nil_iff]
  exact hall.ge

/-- A prefix that was matched is matched with more tokens. -/
theorem matchedPrefix_append {rest : List String} (h : (matchedPrefix rest).isSome)
    (more : List String) : (matchedPrefix (rest ++ more)).isSome := by
  unfold matchedPrefix at h ⊢
  rw [List.find?_isSome] at h ⊢
  obtain ⟨words, hmem, hwords⟩ := h
  refine ⟨words, hmem, ?_⟩
  rw [decide_eq_true_eq] at hwords ⊢
  have hle : words.length ≤ rest.length := by
    rw [← hwords, List.length_take]
    exact Nat.min_le_right _ _
  rw [List.take_append_of_le_length hle]
  exact hwords

/-- **A line is not looked at.** Whatever follows an accepted command on the
next line is accepted with it, as long as the scans find nothing in it. -/
theorem validateCommand_line {command line : String} (hok : validateCommand command = .ok ())
    (hdenylist : search denylistPattern (strip (command ++ "\n" ++ line)).toList = false)
    (hinjection : hasInjection (strip (command ++ "\n" ++ line)) = false) :
    validateCommand (command ++ "\n" ++ line) = .ok () := by
  have hsplit : ∀ text : String, split (strip text) = (splitChars text.toList).map .ofList := by
    intro text
    rw [split, strip, String.toList_ofList, splitChars_stripChars]
  have htokens : split (strip (command ++ "\n" ++ line)) =
      split (strip command) ++ split (strip line) := by
    have hchars : (command ++ "\n" ++ line).toList = command.toList ++ '\n' :: line.toList := by
      simp
    rw [hsplit, hsplit, hsplit, hchars, splitChars_append (by decide), List.map_append]
  obtain ⟨-, -, -, hrest, hmatched⟩ := validateCommand_eq_ok.mp hok
  have hskipped := skipped_append hrest (split (strip line))
  have hle : skipped (split (strip command)) ≤ (split (strip command)).length := by
    by_contra hlt
    exact hrest (List.drop_eq_nil_of_le (by omega))
  rw [validateCommand_eq_ok, htokens, hskipped, List.drop_append_of_le_length hle]
  refine ⟨fun hnil => ?_, hdenylist, hinjection, List.append_ne_nil_of_left_ne_nil hrest _,
    matchedPrefix_append hmatched _⟩
  rw [hnil] at htokens
  have hnone : split (strip command) = [] := (List.append_eq_nil_iff.mp htokens.symm).1
  exact hrest (by rw [hnone, List.drop_nil])

/-- The words of the whitelist are letters and digits, and none is `env`. -/
theorem allowedPrefixes_spec {words : List String} (h : words ∈ allowedPrefixes) :
    words ≠ [] ∧ words.head? ≠ some "env" ∧
      ∀ word ∈ words, word.toList ≠ [] ∧ ∀ c ∈ word.toList, isNameChar c := by
  have hall : ∀ words ∈ allowedPrefixes, words ≠ [] ∧ words.head? ≠ some "env" ∧
      ∀ word ∈ words, word.toList ≠ [] ∧ word.toList.all isNameChar = true := by decide
  obtain ⟨hne, henv, hwords⟩ := hall words h
  exact ⟨hne, henv, fun word hword =>
    ⟨(hwords word hword).1, List.all_eq_true.mp (hwords word hword).2⟩⟩

theorem denylistPattern_solid : ∀ pieces ∈ denylistPattern, Solid pieces := by
  have hsolid : ∀ {c : Char}, isWhitespace c = false → isWhitespace c.toUpper = false →
      ∀ d, ignoringCase c d → isWhitespace d = false := by
    intro c hc hupper d hd
    simp only [ignoringCase, decide_eq_true_eq] at hd
    rcases hd with rfl | rfl | ⟨-, rfl⟩ | ⟨-, rfl⟩
    · exact hc
    · exact hupper
    · decide
    · decide
  have hends : ∀ pieces ∈ denylistPattern, ∃ c middle d, pieces = .char c :: middle ++ [.char d] ∧
      (isWhitespace c = false ∧ isWhitespace c.toUpper = false) ∧
      isWhitespace d = false ∧ isWhitespace d.toUpper = false := by
    intro pieces hpieces
    simp only [denylistPattern, List.map_cons, List.map_nil, List.cons_append, List.nil_append,
      List.mem_cons, List.not_mem_nil, or_false] at hpieces
    rcases hpieces with rfl | rfl | rfl | rfl | rfl | rfl
    · exact ⟨'c', ['u', 'r'].map .char, 'l', by decide⟩
    · exact ⟨'w', ['g', 'e'].map .char, 't', by decide⟩
    · exact ⟨'s', ['s'].map .char, 'h', by decide⟩
    · exact ⟨'s', ['u', 'd'].map .char, 'o', by decide⟩
    · exact ⟨'d', ['o', 'c', 'k', 'e'].map .char, 'r', by decide⟩
    · exact ⟨'r', [.char 'm', .spaces, .char '-', .char 'r', .char 'f', .spaces], '/', by decide⟩
  intro pieces hpieces
  obtain ⟨c, middle, d, rfl, hc, hd⟩ := hends pieces hpieces
  exact ⟨⟨c, _, rfl, hsolid hc.1 hc.2⟩, d, _, rfl, hsolid hd.1 hd.2⟩

/-- The metacharacters are not in the text. -/
theorem hasInjection_strip {command : String} (h : hasInjection (strip command) = false) :
    (∀ c ∈ [';', '&', '|', '`'], c ∉ command.toList) ∧ ¬ "$(".toList <:+: command.toList := by
  have hchars : (strip command).toList = stripChars command.toList := String.toList_ofList
  simp only [hasInjection, contains, hchars, Bool.or_eq_false_iff, decide_eq_false_iff_not,
    List.any_eq_false] at h
  constructor
  · intro c hc hmem
    have hsolid : ∀ c ∈ [';', '&', '|', '`'], isWhitespace c = false :=
      List.forall_iff_forall_mem.mp (by decide)
    have hinfix : [c] <:+: stripChars command.toList := by
      rw [infix_stripChars_iff (by simpa using hsolid c hc) (by simpa using hsolid c hc),
        List.singleton_infix_iff]
      exact hmem
    exact h.1 c ((List.singleton_infix_iff _ _).mp hinfix) (decide_eq_true hc)
  · intro hdollar
    have hhead : ∀ c ∈ "$(".toList.head?, isWhitespace c = false := by
      intro c hc
      obtain rfl := Option.some.inj hc
      decide
    have hlast : ∀ c ∈ "$(".toList.getLast?, isWhitespace c = false := by
      intro c hc
      obtain rfl := Option.some.inj hc
      decide
    exact h.2 ((infix_stripChars_iff hhead hlast).mpr hdollar)

/-! ## What the shell reads of it -/

/-- The word the shell reads of a token. -/
def ReadAs (token : List Char) (word : Word) : Prop :=
  ('=' ∈ token → isAssignment word) ∧ ('=' ∉ token → word = bareWord token)

/-- A token is read as one word, wherever it stands. -/
def OneWord (token : List Char) : Prop :=
  ∀ words r, Reader.Between words r → ∃ word, ReadAs token word ∧
    Reader.At (words ++ [word]) (r.read token)

theorem read_blanks {words : List Word} {r : Reader} {cs : List Char}
    (h : Reader.Between words r) (hcs : ∀ c ∈ cs, isBlankChar c) : Reader.Between words (r.read cs) := by
  induction cs generalizing r with
  | nil => exact h
  | cons c cs ih =>
    obtain ⟨hc, htail⟩ := List.forall_mem_cons.mp hcs
    exact ih (h.at.step_blank hc) htail

theorem read_append (r : Reader) (cs ds : List Char) : r.read (cs ++ ds) = (r.read cs).read ds :=
  List.foldl_append

/-- **A text of such tokens, with blanks between them, is read as their
words.** -/
theorem read_tokens {tokens : List (List Char)} {head : List Char} {words : List Word} {r : Reader}
    (htokens : splitChars head = tokens) (hone : ∀ token ∈ tokens, OneWord token)
    (hblanks : ∀ c ∈ head, isWhitespace c → isBlankChar c) (h : Reader.Between words r) :
    ∃ new, List.Forall₂ ReadAs tokens new ∧ Reader.At (words ++ new) (r.read head) := by
  induction tokens generalizing head words r with
  | nil =>
    have hall : ∀ c ∈ head, isBlankChar c := fun c hc => hblanks c hc (splitChars_nil htokens c hc)
    refine ⟨[], .nil, ?_⟩
    rw [List.append_nil]
    exact (read_blanks h hall).at
  | cons token tokens ih =>
    obtain ⟨hfirst, hrest⟩ := List.forall_mem_cons.mp hone
    obtain ⟨before, rest, rfl, hbefore, -, -, hend, hsplit⟩ := splitChars_cons htokens
    have hbefore' : ∀ c ∈ before, isBlankChar c := fun c hc =>
      hblanks c (by simp [hc]) (hbefore c hc)
    obtain ⟨word, hword, hat⟩ := hfirst words _ (read_blanks h hbefore')
    rw [read_append, read_append]
    cases rest with
    | nil =>
      have hnil : tokens = [] := hsplit.symm
      refine ⟨[word], ?_, hat⟩
      rw [hnil]
      exact .cons hword .nil
    | cons c rest =>
      have hc : isWhitespace c := hend c rfl
      have hnext := hat.step_blank (hblanks c (by simp) hc)
      have hsplit' : splitChars rest = tokens := by
        rw [← hsplit, splitChars, splitChars, splitFrom, if_pos hc, if_pos rfl]
      obtain ⟨new, hnew, hat'⟩ := ih hsplit' hrest (fun d hd => hblanks d (by simp [hd])) hnext
      refine ⟨word :: new, .cons hword hnew, ?_⟩
      rw [List.append_cons]
      exact hat'

/-- An assignment that is complete is one word. -/
theorem oneWord_assignment {token : String} (h : isEnvAssignment token)
    (hinjection : ∀ c ∈ token.toList, isSeparator c = false)
    (hcomplete : Reader.Complete (Reader.read {} token.toList)) : OneWord token.toList := by
  obtain ⟨c, name, value, htoken, hc, hname, hvalue⟩ := isEnvAssignment_spec h
  rw [htoken] at hcomplete hinjection ⊢
  have hvalue' : ∀ d ∈ value, isBlankChar d = false ∧ isSeparator d = false := by
    intro d hd
    refine ⟨?_, hinjection d (by simp [hd])⟩
    by_contra hblank
    simp only [isBlankChar, Bool.not_eq_false, decide_eq_true_eq] at hblank
    have hspace := hvalue d hd
    rcases hblank with rfl | rfl <;> exact absurd hspace (by decide)
  intro words r hbetween
  obtain ⟨word, hword, hat⟩ := hbetween.read_assignment hc hname hvalue' hcomplete
  exact ⟨word, ⟨fun _ => hword, fun hno => absurd (by simp) hno⟩, hat⟩

/-- No character of an assignment separates commands. -/
theorem isSeparator_of_assignment {token command : String} {c : Char} (h : isEnvAssignment token)
    (hmeta : ∀ c ∈ [';', '&', '|', '`'], c ∉ command.toList) (hmem : c ∈ command.toList)
    (hc : c ∈ token.toList) : isSeparator c = false := by
  by_contra hseparator
  simp only [isSeparator, Bool.not_eq_false, decide_eq_true_eq, List.mem_cons, List.not_mem_nil,
    or_false] at hseparator
  rcases hseparator with rfl | rfl | rfl | rfl
  · obtain ⟨d, name, value, htoken, hd, hname, hvalue⟩ := isEnvAssignment_spec h
    rw [htoken, List.cons_append, List.mem_cons, List.mem_append, List.mem_cons] at hc
    rcases hc with rfl | hc | hc | hc
    · exact absurd hd (by decide)
    · exact absurd (hname _ hc) (by decide)
    · exact absurd hc (by decide)
    · exact absurd (hvalue _ hc) (by decide)
  · exact hmeta ';' (by decide) hmem
  · exact hmeta '&' (by decide) hmem
  · exact hmeta '|' (by decide) hmem

/-- A token of letters and digits is one word. -/
theorem oneWord_name {token : List Char} (hne : token ≠ []) (h : ∀ c ∈ token, isNameChar c) :
    OneWord token := by
  intro words r hbetween
  refine ⟨bareWord token, ⟨fun heq => ?_, fun _ => rfl⟩, hbetween.read_plain hne fun c hc =>
    Reader.isPlain_of_isNameChar (h c hc)⟩
  exact absurd (h '=' heq) (by decide)

theorem forall₂_append_left {α β : Type*} {p : α → β → Prop} {l₁ l₂ : List α} {l : List β}
    (h : List.Forall₂ p (l₁ ++ l₂) l) :
    ∃ m₁ m₂, l = m₁ ++ m₂ ∧ List.Forall₂ p l₁ m₁ ∧ List.Forall₂ p l₂ m₂ := by
  refine ⟨l.take l₁.length, l.drop l₁.length, (List.take_append_drop _ _).symm, ?_, ?_⟩
  · exact (List.forall₂_take_append _ _ _ h.flip).flip
  · exact (List.forall₂_drop_append _ _ _ h.flip).flip

theorem isAssignment_mem {word : Word} (h : isAssignment word) : '=' ∈ word.text := by
  cases word with
  | nil => exact absurd h (by simp [isAssignment])
  | cons x word =>
    obtain ⟨c, quoted⟩ := x
    obtain ⟨-, -, hhead⟩ := isAssignment_cons.mp h
    have hmem : ('=', false) ∈ word :=
      (List.dropWhile_suffix isBareNameChar).mem (List.mem_of_mem_head? hhead)
    exact List.mem_map_of_mem (f := Prod.fst) (List.mem_cons_of_mem _ hmem)

@[simp] theorem bareWord_text (text : List Char) : (bareWord text).text = text := by
  unfold bareWord Word.text
  rw [List.map_map]
  exact List.map_id text

/-- The words of letters and digits are read as they are. -/
theorem readAs_names {tokens : List String} {words : List Word}
    (htokens : ∀ token ∈ tokens, ∀ c ∈ token.toList, isNameChar c)
    (h : List.Forall₂ ReadAs (tokens.map String.toList) words) :
    words = tokens.map fun token => bareWord token.toList := by
  induction tokens generalizing words with
  | nil =>
    cases h
    rfl
  | cons token tokens ih =>
    obtain ⟨hname, hrest⟩ := List.forall_mem_cons.mp htokens
    rw [List.map_cons] at h
    obtain ⟨word, more, hword, hmore, rfl⟩ := List.forall₂_cons_left_iff.mp h
    have hno : '=' ∉ token.toList := fun hmem => absurd (hname '=' hmem) (by decide)
    rw [hword.2 hno, ih hrest hmore]
    rfl

theorem readAs_assignments {tokens : List String} {words : List Word}
    (htokens : ∀ token ∈ tokens, isEnvAssignment token)
    (h : List.Forall₂ ReadAs (tokens.map String.toList) words) :
    ∀ word ∈ words, isAssignment word := by
  induction tokens generalizing words with
  | nil =>
    cases h
    simp
  | cons token tokens ih =>
    obtain ⟨htoken, hrest⟩ := List.forall_mem_cons.mp htokens
    rw [List.map_cons] at h
    obtain ⟨word, more, hword, hmore, rfl⟩ := List.forall₂_cons_left_iff.mp h
    obtain ⟨c, name, value, heq, -⟩ := isEnvAssignment_spec htoken
    exact List.forall_mem_cons.mpr ⟨hword.1 (by simp [heq]), ih hrest hmore⟩

theorem operands_eq {simple : ShellWords.Command} {word : Word} {rest : List Word}
    (h : simple.words.dropWhile isAssignment = word :: rest) : operands simple =
      (if word.text = "env".toList then rest.dropWhile isSetting else word :: rest).map Word.text := by
  unfold operands
  rw [h]

/-- **A command with these words is of the whitelist.** -/
theorem whitelisted_of_words {simple : ShellWords.Command} {env assignments words : List String}
    {new : List Word} (henv : env = [] ∨ env = ["env"])
    (hassignments : ∀ token ∈ assignments, isEnvAssignment token) (hwords : words ∈ allowedPrefixes)
    (hnew : List.Forall₂ ReadAs ((env ++ assignments ++ words).map String.toList) new)
    (hsimple : new <+: simple.words) (hwhole : ∀ word ∈ envArguments simple, isSplit word = false) :
    Whitelisted simple := by
  obtain ⟨hne, hhead, hnames⟩ := allowedPrefixes_spec hwords
  obtain ⟨more, hmore⟩ := hsimple
  rw [List.map_append, List.map_append] at hnew
  obtain ⟨front, last, rfl, hfront, hlast⟩ := forall₂_append_left hnew
  obtain ⟨first, middle, rfl, hfirst, hmiddle⟩ := forall₂_append_left hfront
  have hmiddle' := readAs_assignments hassignments hmiddle
  have hlast' := readAs_names (fun token htoken => (hnames token htoken).2) hlast
  have hnotAssignment : ∀ token : String, (∀ c ∈ token.toList, isNameChar c) →
      ¬ isAssignment (bareWord token.toList) := by
    intro token hname h
    have hmem := isAssignment_mem h
    rw [bareWord_text] at hmem
    exact absurd (hname '=' hmem) (by decide)
  obtain ⟨word, rest, rfl⟩ : ∃ word rest, words = word :: rest := List.exists_cons_of_ne_nil hne
  have hword := (hnames word List.mem_cons_self).2
  have htexts : last.map Word.text = (word :: rest).map String.toList := by
    rw [hlast', List.map_map]
    exact List.map_congr_left fun token _ => bareWord_text token.toList
  refine ⟨word :: rest, hwords, more.map Word.text, ?_⟩
  rcases henv with rfl | rfl
  · -- The operands start behind the assignments.
    obtain rfl := List.forall₂_nil_left_iff.mp hfirst
    have hdrop : simple.words.dropWhile isAssignment = last ++ more := by
      rw [← hmore, List.nil_append, List.append_assoc, List.dropWhile_append_of_pos hmiddle', hlast']
      exact List.dropWhile_cons_of_neg (hnotAssignment word hword)
    rw [hlast'] at hdrop
    rw [operands_eq hdrop, if_neg]
    · show _ = (((word :: rest).map fun token => bareWord token.toList) ++ more).map Word.text
      rw [← hlast', List.map_append, htexts]
    · rw [bareWord_text]
      intro henv
      exact hhead (congrArg some (String.toList_injective henv))
  · -- The first word is `env`, and the assignments behind it are its own.
    have henv : ∀ token ∈ ["env"], ∀ c ∈ token.toList, isNameChar c := by
      intro token htoken
      obtain rfl := List.mem_singleton.mp htoken
      exact List.all_eq_true.mp (by decide)
    have hfirst' := readAs_names henv hfirst
    have hdrop : simple.words.dropWhile isAssignment =
        bareWord "env".toList :: (middle ++ last ++ more) := by
      rw [← hmore, hfirst', List.append_assoc, List.append_assoc, List.append_assoc]
      exact List.dropWhile_cons_of_neg (by decide)
    have harguments : ∀ word ∈ middle, isSplit word = false := by
      intro word hmem
      refine hwhole word ?_
      have hhead' : simple.words.head? = some (bareWord "env".toList) := by
        rw [← hmore, hfirst']
        rfl
      have htail : simple.words.tail = middle ++ (last ++ more) := by
        rw [← hmore, hfirst', List.append_assoc, List.append_assoc]
        rfl
      unfold envArguments
      rw [if_pos hhead', htail, List.takeWhile_append_of_pos hmiddle']
      exact List.mem_append_left _ hmem
    have hstop : (middle ++ last ++ more).dropWhile isSetting = last ++ more := by
      rw [List.append_assoc, List.dropWhile_append_of_pos, hlast']
      · refine List.dropWhile_cons_of_neg ?_
        simp only [isSetting, bareWord_text, decide_eq_true_eq]
        intro hsetting
        exact absurd (hword '=' hsetting.1) (by decide)
      · intro word hmem
        exact decide_eq_true ⟨isAssignment_mem (hmiddle' word hmem), harguments word hmem⟩
    rw [operands_eq hdrop, if_pos (bareWord_text _), hstop, List.map_append, htexts]

/-- Blanks and line feeds before the first word are passed over. -/
theorem read_before {before : List Char} (h : ∀ c ∈ before, isBlankChar c ∨ c = '\n') :
    Reader.read {} before = {} := by
  induction before with
  | nil => rfl
  | cons c before ih =>
    obtain ⟨hc, htail⟩ := List.forall_mem_cons.mp h
    have hstep : Reader.step {} c = {} := by
      simp only [isBlankChar, decide_eq_true_eq] at hc
      rcases hc with (rfl | rfl) | rfl <;> decide
    show (Reader.step {} c).read before = {}
    rw [hstep]
    exact ih htail

end Runtime

end AgentReliability
