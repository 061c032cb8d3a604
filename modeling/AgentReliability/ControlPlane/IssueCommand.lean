import AgentReliability.Common.Pattern
import AgentReliability.ControlPlane.WebhookSignature
import AgentReliability.ControlPlane.Writes
import AgentReliability.Shared.TaskSnapshot
/-!
# From an issue and back

A comment on an issue starts a task when one of its lines is a command, and
what becomes of the task is told in a comment on the issue. In between, the
issue is known by its address alone, which the task keeps.
-/

namespace AgentReliability

namespace ControlPlane

open Pattern

/-! ## `webhook-utils.ts` -/

/-- The ends of lines of ECMAScript. -/
def isLineTerminator (c : Char) : Bool := c.toNat ∈ [0x0a, 0x0d, 0x2028, 0x2029]

/-- `[ \t]`. -/
def isLineBlank (c : Char) : Bool := c = ' ' || c = '\t'

/-- `\S`. -/
def isSolid (c : Char) : Bool := !StringNumber.isWhite c

/-- `(\S+)`. -/
def commandWord : Pattern Char := .group (.many 1 isSolid)

/-- `[ \t]+`. -/
def commandGap : Pattern Char := .many 1 isLineBlank

/-- `[ \t]*$`. -/
def commandEnd : Pattern Char := .seq (.many 0 isLineBlank) (.lineEnd isLineTerminator)

/-- `(?:[ \t]+(\S+))?[ \t]*$`. -/
def commandTail : Pattern Char := .seq (.opt (.seq commandGap commandWord)) commandEnd

/-- `/^\/arp[ \t]+run[ \t]+(\S+)(?:[ \t]+(\S+))?[ \t]*$/m`, from its start on. -/
def commandPattern : Pattern Char :=
  .seq (.lit ['/', 'a', 'r', 'p']) <| .seq commandGap <| .seq (.lit ['r', 'u', 'n']) <|
    .seq commandGap <| .seq commandWord commandTail

structure IssueCommand where
  fixtureId : String
  agentKind : AgentKind
  deriving DecidableEq

/-- The agent of a name, one of `AGENT_KINDS`. -/
def agentNamed (name : String) : Option AgentKind :=
  Shared.agentKinds.find? fun kind => Shared.agentKindName kind = name

/-- The agent a command names, or leaves out. -/
def commandAgent (kind : Option (List Char)) : Option AgentKind :=
  agentNamed ((kind.map String.ofList).getD "SELF_LANGGRAPH")

def parseRunCommand (comment : String) : Option IssueCommand :=
  match searchLines isLineTerminator commandPattern true comment.toList with
  | some [some fixtureId, kind] =>
    (commandAgent kind).map fun agentKind => { fixtureId := .ofList fixtureId, agentKind }
  | _ => none

/-- `([^/]+\/[^/]+)`. -/
def repoPattern : Pattern Char :=
  .group (.seq (.many 1 (· ≠ '/')) (.seq (.lit ['/']) (.many 1 (· ≠ '/'))))

/-- `(?:issues|pull)`. -/
def kindPattern : Pattern Char :=
  .alt (.lit ['i', 's', 's', 'u', 'e', 's']) (.lit ['p', 'u', 'l', 'l'])

/-- `/^https:\/\/github\.com\/([^/]+\/[^/]+)\/(?:issues|pull)\/(\d+)/`. -/
def issuePattern : Pattern Char :=
  .seq (.lit "https://github.com/".toList) <| .seq repoPattern <| .seq (.lit ['/']) <|
    .seq kindPattern <| .seq (.lit ['/']) (.group (.many 1 Char.isDigit))

/-- The number is the double of `Number(digits)`, if it is finite. -/
structure IssueRef where
  repo : String
  number : Option ℚ

def parseIssueRef (url : Option String) : Option IssueRef :=
  match issuePattern.first (url.getD "").toList with
  | some [some repo, some digits] =>
    (StringNumber.literal? digits).map fun v =>
      { repo := .ofList repo, number := StringNumber.toDouble v }
  | _ => none

/-! ## `github.controller.ts` -/

/-- What the controller reads of a request. -/
structure WebhookRequest where
  rawBody : Option (List UInt8)
  signature : Option JsString
  event : Option String
  /-- `action`, `comment?.body` and `issue?.html_url` of the payload. -/
  action : Option String
  comment : Option String
  issueUrl : Option String

inductive WebhookError where
  | serviceUnavailable (message : String)
  | unauthorized (message : String)
  /-- The check of the signature threw. -/
  | crypto (e : CryptoError)
  deriving DecidableEq

inductive WebhookAnswer where
  /-- To a ping. -/
  | ok
  | skipped (reason : String)
  /-- A task is created from the input. -/
  | task (input : CreateTaskInput)

/-- `webhook`, up to `createTask`. -/
def webhook (hmacSha256 : JsString → List UInt8 → Sha256Digest) (secret : JsString)
    (req : WebhookRequest) : Except WebhookError WebhookAnswer :=
  if secret = [] then
    .error (.serviceUnavailable "GITHUB_WEBHOOK_SECRET 未配置，webhook 不可用")
  else
    match req.rawBody with
    | none => .error (.unauthorized "webhook 签名校验失败")
    | some body =>
      match verifyWebhookSignature hmacSha256 secret body req.signature with
      | .error e => .error (.crypto e)
      | .ok false => .error (.unauthorized "webhook 签名校验失败")
      | .ok true =>
        if req.event = some "ping" then .ok .ok
        else if req.event ≠ some "issue_comment" then
          .ok (.skipped ("事件 " ++ req.event.getD "undefined" ++ " 不处理"))
        else if req.action ≠ some "created" then .ok (.skipped "非新建评论")
        else
          match parseRunCommand (req.comment.getD "") with
          | none => .ok (.skipped "无 /arp run 命令")
          | some command =>
            .ok (.task {
              fixtureId := command.fixtureId, agentKind := command.agentKind
              sourceRef := req.issueUrl })

/-! ## `github.service.ts` -/

/-- The path `commentOnIssue` posts to, for the texts of numbers in a
template. -/
def commentPath (numberText : Option ℚ → String) (sourceRef : Option String) : Option String :=
  (parseIssueRef sourceRef).map fun ref =>
    "/repos/" ++ ref.repo ++ "/issues/" ++ numberText ref.number ++ "/comments"

/-! ## The lines that are commands -/

/-- The words of a line, between its blanks. -/
def lineWords (line : List Char) : List (List Char) :=
  (line.splitOnP isLineBlank).filter (· ≠ [])

/-- **A line is a command** when its words are `/arp`, `run`, a fixture and
maybe an agent, nothing stands before the first, and blanks are all its white
space. -/
structure CommandLine (line fixtureId : List Char) (kind : Option (List Char)) : Prop where
  words : lineWords line = ['/', 'a', 'r', 'p'] :: ['r', 'u', 'n'] :: fixtureId :: kind.toList
  start : line.head? = some '/'
  blanks : ∀ c ∈ line, isSolid c = true ∨ isLineBlank c = true

/-- The first line that is a command, and what it asks for. -/
def FirstCommand (comment : String) (fixtureId : List Char) (kind : Option (List Char)) : Prop :=
  ∃ before line after,
    Pattern.lines isLineTerminator comment.toList = before ++ line :: after ∧
      (∀ earlier ∈ before, ∀ fixtureId' kind', ¬ CommandLine earlier fixtureId' kind') ∧
      CommandLine line fixtureId kind

/-! ## The words of a line -/

theorem not_blank_of_solid {c : Char} (h : isSolid c = true) : isLineBlank c = false := by
  cases hc : isLineBlank c with
  | false => rfl
  | true =>
    rw [isLineBlank, Bool.or_eq_true, decide_eq_true_eq, decide_eq_true_eq] at hc
    rcases hc with rfl | rfl
    · exact absurd h (by decide)
    · exact absurd h (by decide)

theorem not_solid_of_blank {c : Char} (h : isLineBlank c = true) : isSolid c = false := by
  cases hc : isSolid c with
  | false => rfl
  | true => exact absurd h (by simp [not_blank_of_solid hc])

theorem lineWords_blank {c : Char} (hc : isLineBlank c = true) (cs : List Char) :
    lineWords (c :: cs) = lineWords cs := by
  rw [lineWords, List.splitOnP_cons_eq_if_modifyHead, if_pos hc]
  rfl

theorem lineWords_of_blanks {blanks : List Char} (h : ∀ c ∈ blanks, isLineBlank c = true)
    (cs : List Char) : lineWords (blanks ++ cs) = lineWords cs := by
  induction blanks with
  | nil => rfl
  | cons c blanks ih =>
    obtain ⟨hc, hblanks⟩ := List.forall_mem_cons.mp h
    rw [List.cons_append, lineWords_blank hc, ih hblanks]

/-- A word ends where a blank follows, or the line ends. -/
theorem lineWords_word {word rest : List Char} (hne : word ≠ [])
    (hword : ∀ c ∈ word, isLineBlank c = false) (hrest : ∀ c ∈ rest.head?, isLineBlank c = true) :
    lineWords (word ++ rest) = word :: lineWords rest := by
  cases rest with
  | nil =>
    rw [List.append_nil, lineWords, List.splitOnP_eq_singleton hword]
    simp [hne, lineWords]
  | cons c rest =>
    have hc : isLineBlank c = true := hrest c rfl
    rw [lineWords_blank hc, lineWords, List.splitOnP_append_cons_of_forall_mem hword c hc]
    simp [hne, lineWords]

/-- **The first word of a line**, with the blanks before it. -/
theorem lineWords_eq_cons {cs word : List Char} {words : List (List Char)}
    (h : lineWords cs = word :: words) :
    ∃ blanks rest, cs = blanks ++ (word ++ rest) ∧ (∀ c ∈ blanks, isLineBlank c = true) ∧
      word ≠ [] ∧ (∀ c ∈ word, isLineBlank c = false) ∧
      (∀ c ∈ rest.head?, isLineBlank c = true) ∧ lineWords rest = words := by
  induction cs with
  | nil => exact absurd h (by simp [lineWords])
  | cons c cs ih =>
    cases hc : isLineBlank c with
    | true =>
      rw [lineWords_blank hc] at h
      obtain ⟨blanks, rest, rfl, hblanks, hword⟩ := ih h
      exact ⟨c :: blanks, rest, rfl, List.forall_mem_cons.mpr ⟨hc, hblanks⟩, hword⟩
    | false =>
      have hsplit := List.takeWhile_append_dropWhile (p := fun c => !isLineBlank c) (l := c :: cs)
      have hne : (c :: cs).takeWhile (fun c => !isLineBlank c) ≠ [] := by
        rw [List.takeWhile_cons_of_pos (by simp [hc])]
        exact List.cons_ne_nil _ _
      have hplain : ∀ d ∈ (c :: cs).takeWhile (fun c => !isLineBlank c), isLineBlank d = false :=
        fun d hd => by simpa using List.mem_takeWhile_imp hd
      have hend : ∀ d ∈ ((c :: cs).dropWhile fun c => !isLineBlank c).head?,
          isLineBlank d = true := fun d hd => by
        have := List.head?_dropWhile_not (fun c => !isLineBlank c) (c :: cs)
        rw [Option.mem_def.mp hd] at this
        simpa using this
      rw [← hsplit, lineWords_word hne hplain hend, List.cons.injEq] at h
      obtain ⟨rfl, rfl⟩ := h
      exact ⟨[], _, hsplit.symm, by simp, hne, hplain, hend, rfl⟩

theorem blanks_of_lineWords_eq_nil {cs : List Char} (h : lineWords cs = []) :
    ∀ c ∈ cs, isLineBlank c = true := by
  induction cs with
  | nil => simp
  | cons c cs ih =>
    cases hc : isLineBlank c with
    | true =>
      rw [lineWords_blank hc] at h
      exact List.forall_mem_cons.mpr ⟨hc, ih h⟩
    | false =>
      rw [lineWords, List.splitOnP_cons_eq_if_modifyHead, if_neg (by simp [hc])] at h
      cases hsplit : cs.splitOnP isLineBlank with
      | nil => exact absurd hsplit (List.splitOnP_ne_nil _ _)
      | cons first more =>
        rw [hsplit] at h
        exact absurd h (by simp)

/-- Blanks come first, as far as there are any. -/
theorem head_blank {blanks rest : List Char} (hblanks : ∀ c ∈ blanks, isLineBlank c = true)
    (hrest : blanks = [] → ∀ c ∈ rest.head?, isLineBlank c = true) :
    ∀ c ∈ (blanks ++ rest).head?, isLineBlank c = true := by
  cases blanks with
  | nil => exact hrest rfl
  | cons b blanks =>
    intro c hc
    obtain rfl := Option.some.inj hc
    exact hblanks b List.mem_cons_self

/-- A word comes first. -/
theorem head_word {word rest : List Char} (hne : word ≠ [])
    (hword : ∀ c ∈ word, isLineBlank c = false) :
    ∀ c ∈ (word ++ rest).head?, isLineBlank c = false := by
  obtain ⟨b, word, rfl⟩ := List.exists_cons_of_ne_nil hne
  intro c hc
  obtain rfl := Option.some.inj hc
  exact hword b List.mem_cons_self

/-- Where a blank comes first and then a word, blanks come before the word. -/
theorem gap_pos {gap word rest : List Char} (hne : word ≠ [])
    (hword : ∀ c ∈ word, isLineBlank c = false)
    (h : ∀ c ∈ (gap ++ (word ++ rest)).head?, isLineBlank c = true) : 1 ≤ gap.length := by
  cases gap with
  | cons c gap => exact Nat.succ_le_succ (Nat.zero_le _)
  | nil =>
    obtain ⟨c, word, rfl⟩ := List.exists_cons_of_ne_nil hne
    have hblank := h c rfl
    exact absurd hblank (by simp [hword c List.mem_cons_self])

/-- A word, and blanks after it. -/
theorem lineWords_next {word blanks rest : List Char} (hne : word ≠ [])
    (hword : ∀ c ∈ word, isSolid c = true) (hblanks : ∀ c ∈ blanks, isLineBlank c = true)
    (hlen : 1 ≤ blanks.length) : lineWords (word ++ (blanks ++ rest)) = word :: lineWords rest := by
  have hnil : blanks ≠ [] := List.ne_nil_of_length_pos hlen
  have hhead : ∀ c ∈ (blanks ++ rest).head?, isLineBlank c = true :=
    head_blank hblanks fun h => absurd h hnil
  rw [lineWords_word hne (fun c hc => not_blank_of_solid (hword c hc)) hhead,
    lineWords_of_blanks hblanks]

/-! ## Which lines the pattern takes -/

theorem not_terminator_of_solid {c : Char} (h : isSolid c = true) : isLineTerminator c = false := by
  cases hc : isLineTerminator c with
  | false => rfl
  | true =>
    have hmem := of_decide_eq_true hc
    simp only [List.mem_cons, List.not_mem_nil, or_false] at hmem
    have hwhite : StringNumber.isWhite c = true := by
      rcases hmem with h | h | h | h <;> simp [StringNumber.isWhite, h]
    exact absurd h (by simp [isSolid, hwhite])

theorem not_terminator_of_blank {c : Char} (h : isLineBlank c = true) :
    isLineTerminator c = false := by
  rw [isLineBlank, Bool.or_eq_true, decide_eq_true_eq, decide_eq_true_eq] at h
  rcases h with rfl | rfl
  · decide
  · decide

theorem solid_arp : ∀ c ∈ ['/', 'a', 'r', 'p'], isSolid c = true := List.all_eq_true.mp rfl

theorem solid_run : ∀ c ∈ ['r', 'u', 'n'], isSolid c = true := List.all_eq_true.mp rfl

theorem commandPattern_inline : commandPattern.Inline isLineTerminator := by
  have hsolid : ∀ c, isSolid c = true → isLineTerminator c = false :=
    fun _ => not_terminator_of_solid
  have hblank : ∀ c, isLineBlank c = true → isLineTerminator c = false :=
    fun _ => not_terminator_of_blank
  have htail : commandTail.Inline isLineTerminator := ⟨⟨hblank, hsolid⟩, hblank, rfl⟩
  exact ⟨fun c hc => hsolid c (solid_arp c hc), hblank, fun c hc => hsolid c (solid_run c hc),
    hblank, hsolid, htail⟩

section

variable {cs line rest : List Char} {caps : Pattern.Captures Char}

theorem mem_commandWord (h : (caps, rest) ∈ commandWord.ways cs) :
    ∃ word, caps = [some word] ∧ cs = word ++ rest ∧ word ≠ [] ∧ ∀ c ∈ word, isSolid c = true := by
  obtain ⟨caps', word, hmany, rfl, rfl⟩ := mem_group h
  obtain ⟨rfl, word', heq, hword, hlen⟩ := mem_many hmany
  obtain rfl := List.append_cancel_right heq
  exact ⟨word, rfl, rfl, List.ne_nil_of_length_pos hlen, hword⟩

/-- Within a line, the pattern goes on to the end of it. -/
theorem mem_commandEnd (hline : ∀ c ∈ cs, isLineTerminator c = false)
    (h : (caps, rest) ∈ commandEnd.ways cs) :
    caps = [] ∧ ∀ c ∈ cs, isLineBlank c = true := by
  obtain ⟨_, _, last, hmany, hlast, rfl⟩ := mem_seq h
  obtain ⟨rfl, blanks, rfl, hblanks, -⟩ := mem_many hmany
  obtain ⟨rfl, -, hend⟩ := mem_lineEnd hlast
  cases last with
  | nil => exact ⟨rfl, by simpa using hblanks⟩
  | cons c last =>
    have hc := hline c (List.mem_append_right _ List.mem_cons_self)
    exact absurd (hend c rfl) (by simp [hc])

/-- **What follows the fixture** is blank, up to an agent. -/
theorem mem_commandTail (hline : ∀ c ∈ cs, isLineTerminator c = false)
    (h : (caps, rest) ∈ commandTail.ways cs) :
    ∃ kind : Option (List Char), caps = [kind] ∧ lineWords cs = kind.toList ∧
      (∀ c ∈ cs.head?, isLineBlank c = true) ∧
      ∀ c ∈ cs, isSolid c = true ∨ isLineBlank c = true := by
  obtain ⟨caps₁, _, last, hkind, hend, rfl⟩ := mem_seq h
  obtain ⟨rfl, hlast⟩ :=
    mem_commandEnd (fun c hc => hline c ((suffix_of_mem_ways hkind).subset hc)) hend
  have hnil : lineWords last = [] := by
    have hblanks := lineWords_of_blanks hlast []
    rwa [List.append_nil] at hblanks
  rcases mem_opt hkind with hkind | ⟨rfl, rfl⟩
  · obtain ⟨_, _, _, hmany, hgroup, rfl⟩ := mem_seq hkind
    obtain ⟨rfl, gap, rfl, hgap, hlen⟩ := mem_many hmany
    obtain ⟨word, rfl, rfl, hne, hword⟩ := mem_commandWord hgroup
    have hhead : ∀ c ∈ last.head?, isLineBlank c = true :=
      fun c hc => hlast c (List.mem_of_mem_head? hc)
    refine ⟨some word, rfl, ?_, ?_, ?_⟩
    · rw [lineWords_of_blanks hgap,
        lineWords_word hne (fun c hc => not_blank_of_solid (hword c hc)) hhead, hnil]
      rfl
    · exact head_blank hgap fun h => absurd h (List.ne_nil_of_length_pos hlen)
    · intro c hc
      rcases List.mem_append.mp hc with hc | hc
      · exact .inr (hgap c hc)
      · rcases List.mem_append.mp hc with hc | hc
        · exact .inl (hword c hc)
        · exact .inr (hlast c hc)
  · exact ⟨none, rfl, hnil, fun c hc => hlast c (List.mem_of_mem_head? hc),
      fun c hc => .inr (hlast c hc)⟩

/-- **A line the pattern matches is a command**, and its captures are what the
command asks for. -/
theorem commandLine_of_first (hline : ∀ c ∈ line, isLineTerminator c = false)
    (h : commandPattern.first line = some caps) :
    ∃ fixtureId kind, caps = [some fixtureId, kind] ∧ CommandLine line fixtureId kind := by
  obtain ⟨rest, h⟩ := mem_of_first h
  obtain ⟨_, _, _, hlit₁, h₁, rfl⟩ := mem_seq h
  obtain ⟨rfl, rfl⟩ := mem_lit hlit₁
  obtain ⟨_, _, _, hmany₁, h₂, rfl⟩ := mem_seq h₁
  obtain ⟨rfl, gap₁, rfl, hgap₁, hlen₁⟩ := mem_many hmany₁
  obtain ⟨_, _, _, hlit₂, h₃, rfl⟩ := mem_seq h₂
  obtain ⟨rfl, rfl⟩ := mem_lit hlit₂
  obtain ⟨_, _, _, hmany₂, h₄, rfl⟩ := mem_seq h₃
  obtain ⟨rfl, gap₂, rfl, hgap₂, hlen₂⟩ := mem_many hmany₂
  obtain ⟨_, _, more, hgroup, htail, rfl⟩ := mem_seq h₄
  obtain ⟨fixtureId, rfl, rfl, hne, hsolid⟩ := mem_commandWord hgroup
  have hmore : ∀ c ∈ more, isLineTerminator c = false := fun c hc => hline c (by simp [hc])
  obtain ⟨kind, rfl, hwords, hhead, hall⟩ := mem_commandTail hmore htail
  refine ⟨fixtureId, kind, rfl, ?_, rfl, ?_⟩
  · rw [lineWords_next (by simp) solid_arp hgap₁ hlen₁,
      lineWords_next (by simp) solid_run hgap₂ hlen₂,
      lineWords_word hne (fun c hc => not_blank_of_solid (hsolid c hc)) hhead, hwords]
  · simp only [List.forall_mem_append]
    exact ⟨fun c hc => .inl (solid_arp c hc), fun c hc => .inr (hgap₁ c hc),
      fun c hc => .inl (solid_run c hc), fun c hc => .inr (hgap₂ c hc),
      fun c hc => .inl (hsolid c hc), hall⟩

theorem head?_commandWord {word : List Char} (hne : word ≠ [])
    (hword : ∀ c ∈ word, isSolid c = true) (hrest : ∀ c ∈ rest.head?, isLineBlank c = true) :
    (commandWord.ways (word ++ rest)).head? = some ([some word], rest) :=
  head?_group (head?_many hword (List.length_pos_of_ne_nil hne) fun c hc =>
    not_solid_of_blank (hrest c hc))

theorem head?_commandEnd (h : ∀ c ∈ cs, isLineBlank c = true) :
    (commandEnd.ways cs).head? = some ([], []) := by
  have hblanks : ((many 0 isLineBlank).ways (cs ++ [])).head? = some ([], []) :=
    head?_many h (Nat.zero_le _) (by simp)
  rw [List.append_nil] at hblanks
  exact head?_seq hblanks rfl

theorem head?_commandTail {kind : Option (List Char)} (hwords : lineWords cs = kind.toList)
    (hhead : ∀ c ∈ cs.head?, isLineBlank c = true)
    (hall : ∀ c ∈ cs, isSolid c = true ∨ isLineBlank c = true) :
    (commandTail.ways cs).head? = some ([kind], []) := by
  cases kind with
  | none =>
    have hblanks := blanks_of_lineWords_eq_nil hwords
    have hkind : (Pattern.seq commandGap commandWord).ways cs = [] := by
      refine List.eq_nil_iff_forall_not_mem.mpr fun m hm => ?_
      obtain ⟨_, _, _, hmany, hgroup, -⟩ := mem_seq hm
      obtain ⟨-, gap, rfl, -, -⟩ := mem_many hmany
      obtain ⟨word, -, rfl, hne, hsolid⟩ := mem_commandWord hgroup
      obtain ⟨c, word, rfl⟩ := List.exists_cons_of_ne_nil hne
      have hblank := hblanks c (by simp)
      exact absurd (hsolid c List.mem_cons_self) (by simp [not_solid_of_blank hblank])
    exact head?_seq (head?_opt_none hkind) (head?_commandEnd hblanks)
  | some word =>
    obtain ⟨gap, rest, rfl, hgap, hne, hword, hrest, hnil⟩ := lineWords_eq_cons hwords
    have hsolid : ∀ c ∈ word, isSolid c = true := fun c hc =>
      (hall c (by simp [hc])).resolve_right (by simp [hword c hc])
    have hnext : ∀ c ∈ (word ++ rest).head?, isLineBlank c = false := head_word hne hword
    have hkind := head?_opt (head?_seq (head?_many hgap (gap_pos hne hword hhead) hnext)
      (head?_commandWord hne hsolid hrest))
    exact head?_seq hkind (head?_commandEnd (blanks_of_lineWords_eq_nil hnil))

/-- **A command is matched.** -/
theorem first_of_commandLine {fixtureId : List Char} {kind : Option (List Char)}
    (h : CommandLine line fixtureId kind) :
    commandPattern.first line = some [some fixtureId, kind] := by
  obtain ⟨hwords, hstart, hall⟩ := h
  obtain ⟨gap₀, rest₀, rfl, hgap₀, -, -, hrest₀, hwords₀⟩ := lineWords_eq_cons hwords
  obtain rfl : gap₀ = [] := by
    cases gap₀ with
    | nil => rfl
    | cons c gap =>
      obtain rfl := Option.some.inj hstart
      exact absurd (hgap₀ '/' List.mem_cons_self) (by decide)
  obtain ⟨gap₁, rest₁, rfl, hgap₁, hne₁, hrun, hrest₁, hwords₁⟩ := lineWords_eq_cons hwords₀
  obtain ⟨gap₂, rest₂, rfl, hgap₂, hne₂, hfixture, hrest₂, hwords₂⟩ := lineWords_eq_cons hwords₁
  have hsolid : ∀ c ∈ fixtureId, isSolid c = true := fun c hc =>
    (hall c (by simp [hc])).resolve_right (by simp [hfixture c hc])
  have htail := head?_commandTail hwords₂ hrest₂ fun c hc => hall c (by simp [hc])
  have hnext₁ : ∀ c ∈ (['r', 'u', 'n'] ++ (gap₂ ++ (fixtureId ++ rest₂))).head?,
      isLineBlank c = false := head_word hne₁ hrun
  have hnext₂ : ∀ c ∈ (fixtureId ++ rest₂).head?, isLineBlank c = false :=
    head_word hne₂ hfixture
  exact first_of_head? <| head?_seq (head?_lit _ _) <|
    head?_seq (head?_many hgap₁ (gap_pos hne₁ hrun hrest₀) hnext₁) <|
    head?_seq (head?_lit _ _) <|
    head?_seq (head?_many hgap₂ (gap_pos hne₂ hfixture hrest₁) hnext₂) <|
    head?_seq (head?_commandWord hne₂ hsolid hrest₂) htail

end

/-- **The first command of a comment is found**, and only that. -/
theorem searchCommand_iff {comment : String} {caps : Pattern.Captures Char} :
    searchLines isLineTerminator commandPattern true comment.toList = some caps ↔
      ∃ fixtureId kind, caps = [some fixtureId, kind] ∧ FirstCommand comment fixtureId kind := by
  have hline : ∀ line ∈ Pattern.lines isLineTerminator comment.toList,
      ∀ c ∈ line, isLineTerminator c = false := fun line h c hc => isEnd_of_mem_lines h hc
  rw [searchLines_eq commandPattern_inline, List.findSome?_eq_some_iff]
  constructor
  · rintro ⟨before, line, after, hsplit, hfirst, hbefore⟩
    obtain ⟨fixtureId, kind, rfl, hcommand⟩ :=
      commandLine_of_first (hline line (by simp [hsplit])) hfirst
    refine ⟨fixtureId, kind, rfl, before, line, after, hsplit, ?_, hcommand⟩
    intro earlier hearlier fixtureId' kind' h
    exact absurd (hbefore earlier hearlier) (by simp [first_of_commandLine h])
  · rintro ⟨fixtureId, kind, rfl, before, line, after, hsplit, hbefore, hcommand⟩
    refine ⟨before, line, after, hsplit, first_of_commandLine hcommand, fun earlier hearlier => ?_⟩
    cases hfirst : commandPattern.first earlier with
    | none => rfl
    | some caps' =>
      obtain ⟨fixtureId', kind', -, h⟩ :=
        commandLine_of_first (hline earlier (by simp [hsplit, hearlier])) hfirst
      exact absurd h (hbefore earlier hearlier fixtureId' kind')

/-- **A comment asks for a run when its first command does.** A command for an
agent that is not there hides the commands after it. -/
theorem parseRunCommand_iff {comment : String} {command : IssueCommand} :
    parseRunCommand comment = some command ↔
      ∃ kind, FirstCommand comment command.fixtureId.toList kind ∧
        commandAgent kind = some command.agentKind := by
  unfold parseRunCommand
  constructor
  · intro h
    split at h
    · next fixtureId kind hsearch =>
      obtain ⟨fixtureId', kind', hcaps, hfirst⟩ := searchCommand_iff.mp hsearch
      obtain ⟨agentKind, hagent, rfl⟩ := Option.map_eq_some_iff.mp h
      simp only [List.cons.injEq, Option.some.injEq, and_true] at hcaps
      obtain ⟨rfl, rfl⟩ := hcaps
      exact ⟨kind, by simpa using hfirst, hagent⟩
    · exact absurd h (by simp)
  · rintro ⟨kind, hfirst, hagent⟩
    rw [searchCommand_iff.mpr ⟨_, kind, rfl, hfirst⟩]
    simp [hagent]

/-! ## The address of an issue -/

/-- The `html_url` of an issue or a pull request, maybe with a fragment. -/
structure IssueAddress where
  owner : String
  repo : String
  pull : Bool
  number : ℕ
  fragment : String

namespace IssueAddress

/-- `issues` or `pull`. -/
def kind (a : IssueAddress) : List Char :=
  if a.pull then ['p', 'u', 'l', 'l'] else ['i', 's', 's', 'u', 'e', 's']

def url (a : IssueAddress) : String :=
  .ofList ("https://github.com/".toList ++ ((a.owner.toList ++ '/' :: a.repo.toList) ++
    '/' :: (a.kind ++ '/' :: ((toString a.number).toList ++ a.fragment.toList))))

/-- The path of its comments. -/
def commentPath (a : IssueAddress) : String :=
  "/repos/" ++ String.ofList (a.owner.toList ++ '/' :: a.repo.toList) ++ "/issues/" ++
    toString a.number ++ "/comments"

structure Valid (a : IssueAddress) : Prop where
  owner : a.owner.toList ≠ [] ∧ '/' ∉ a.owner.toList
  repo : a.repo.toList ≠ [] ∧ '/' ∉ a.repo.toList
  number : a.number ≤ StringNumber.maxSafeInteger
  fragment : ∀ c ∈ a.fragment.toList.head?, c.isDigit = false

end IssueAddress

/-- A segment of a path goes on to the next slash. -/
theorem head?_segment {segment rest : List Char} (hne : segment ≠ []) (h : '/' ∉ segment)
    (hrest : ∀ c ∈ rest.head?, c = '/') :
    ((many 1 (· ≠ '/')).ways (segment ++ rest)).head? = some ([], rest) := by
  refine head?_many (fun c hc => ?_) (List.length_pos_of_ne_nil hne) fun c hc => ?_
  · exact decide_eq_true fun heq => h (heq ▸ hc)
  · simp [hrest c hc]

theorem head?_repo {owner repo rest : List Char} (howner : owner ≠ [] ∧ '/' ∉ owner)
    (hrepo : repo ≠ [] ∧ '/' ∉ repo) (hrest : ∀ c ∈ rest.head?, c = '/') :
    (repoPattern.ways ((owner ++ '/' :: repo) ++ rest)).head? =
      some ([some (owner ++ '/' :: repo)], rest) := by
  refine head?_group ?_
  rw [List.append_assoc, List.cons_append]
  exact head?_seq (head?_segment howner.1 howner.2 (by simp))
    (head?_seq (head?_lit ['/'] _) (head?_segment hrepo.1 hrepo.2 hrest))

/-- Either word for the kind of an issue is taken. -/
theorem head?_kind (a : IssueAddress) (rest : List Char) :
    (kindPattern.ways (a.kind ++ rest)).head? = some ([], rest) := by
  unfold IssueAddress.kind
  cases a.pull with
  | false => exact head?_alt_left (head?_lit _ rest)
  | true => exact head?_alt_right (by simp [ways_lit]) (head?_lit _ rest)

theorem toList_url (a : IssueAddress) :
    a.url.toList = "https://github.com/".toList ++ ((a.owner.toList ++ '/' :: a.repo.toList) ++
      '/' :: (a.kind ++ '/' :: (Nat.toDigits 10 a.number ++ a.fragment.toList))) := by
  have htext : (toString a.number).toList = Nat.toDigits 10 a.number := Nat.toList_repr
  rw [← htext]
  exact String.toList_ofList

/-- **The issue of an address is read back.** -/
theorem first_issuePattern {a : IssueAddress} (h : a.Valid) :
    issuePattern.first a.url.toList =
      some [some (a.owner.toList ++ '/' :: a.repo.toList), some (Nat.toDigits 10 a.number)] := by
  have hdigits : ∀ c ∈ Nat.toDigits 10 a.number, c.isDigit = true := fun c hc =>
    Nat.isDigit_of_mem_toDigits (by decide) (by decide) hc
  have hnumber : ((Pattern.group (.many 1 Char.isDigit)).ways
      (Nat.toDigits 10 a.number ++ a.fragment.toList)).head? =
        some ([some (Nat.toDigits 10 a.number)], a.fragment.toList) :=
    head?_group (head?_many hdigits (List.length_pos_of_ne_nil Nat.toDigits_ne_nil) h.fragment)
  have hkind := head?_seq (head?_kind a _) (head?_seq (head?_lit ['/'] _) hnumber)
  have hrepo := head?_seq (head?_repo h.owner h.repo (by simp))
    (head?_seq (head?_lit ['/'] _) hkind)
  have hfirst := first_of_head? (head?_seq (head?_lit "https://github.com/".toList _) hrepo)
  exact (congrArg issuePattern.first (toList_url a)).trans hfirst

/-- **A comment on the task goes to the issue of its address.** -/
theorem commentPath_url {numberText : Option ℚ → String}
    (hnumber : ∀ n : ℕ, n ≤ StringNumber.maxSafeInteger → numberText (some (n : ℚ)) = toString n)
    {a : IssueAddress} (h : a.Valid) :
    commentPath numberText (some a.url) = some a.commentPath := by
  have hdigits : ∀ c ∈ Nat.toDigits 10 a.number, c.isDigit = true := fun c hc =>
    Nat.isDigit_of_mem_toDigits (by decide) (by decide) hc
  have hliteral := StringNumber.literal_of_digits Nat.toDigits_ne_nil hdigits
  rw [Nat.ofDigitChars_ten_toDigits] at hliteral
  unfold commentPath parseIssueRef
  rw [Option.getD_some, first_issuePattern h]
  simp only [hliteral, Option.map_some, StringNumber.toDouble_natCast h.number,
    hnumber a.number h.number]
  rfl

/-! ## From the request to the task -/

section

variable {hmacSha256 : JsString → List UInt8 → Sha256Digest} {secret : JsString}

/-- A request is let through when its header is a signature of its body. -/
theorem verify_eq_true_iff {body : List UInt8} {header : Option JsString} :
    verifyWebhookSignature hmacSha256 secret body header = .ok true ↔
      IsSignature hmacSha256 secret body header := by
  cases header with
  | none => simp [verifyWebhookSignature, IsSignature]
  | some header =>
    by_cases hscheme : signatureScheme <+: header
    · obtain ⟨provided, rfl⟩ := hscheme
      by_cases hbad : provided.length = 64 ∧ ¬ Hex.IsHex provided
      · rw [verify_of_not_hex hbad.1 hbad.2, isSignature_scheme]
        exact ⟨fun h => absurd h (by simp), fun h => absurd (hex_of_lower h).2 hbad.2⟩
      · obtain ⟨answer, hanswer, hiff⟩ := checksExactly_scheme hbad
        rw [hanswer, Except.ok.injEq]
        exact hiff
    · have hfalse : verifyWebhookSignature hmacSha256 secret body (some header) = .ok false := by
        unfold verifyWebhookSignature
        simp only [hscheme, not_false_eq_true, if_true]
      rw [hfalse]
      refine ⟨fun h => absurd h (by simp), ?_⟩
      rintro ⟨digits, heq, -⟩
      exact absurd (Option.some.inj heq ▸ List.prefix_append _ _) hscheme

/-- A request that asks for a task, and the input it gives. -/
structure AsksFor (hmacSha256 : JsString → List UInt8 → Sha256Digest) (secret : JsString)
    (req : WebhookRequest) (input : CreateTaskInput) : Prop where
  configured : secret ≠ []
  signed : ∃ body, req.rawBody = some body ∧ IsSignature hmacSha256 secret body req.signature
  event : req.event = some "issue_comment"
  action : req.action = some "created"
  command : ∃ kind, FirstCommand (req.comment.getD "") input.fixtureId.toList kind ∧
    commandAgent kind = some input.agentKind
  input : input =
    { fixtureId := input.fixtureId, agentKind := input.agentKind, sourceRef := req.issueUrl }

/-- **Only a signed command asks for a task**, and each does. -/
theorem webhook_iff {req : WebhookRequest} {input : CreateTaskInput} :
    webhook hmacSha256 secret req = .ok (.task input) ↔ AsksFor hmacSha256 secret req input := by
  constructor
  · intro h
    unfold webhook at h
    by_cases hsecret : secret = []
    · rw [if_pos hsecret] at h
      exact absurd h (by simp)
    rw [if_neg hsecret] at h
    cases hbody : req.rawBody with
    | none => exact absurd h (by simp [hbody])
    | some body =>
      simp only [hbody] at h
      split at h
      · exact absurd h (by simp)
      · exact absurd h (by simp)
      · next hverify =>
        split at h
        · exact absurd h (by simp)
        split at h
        · exact absurd h (by simp)
        split at h
        · exact absurd h (by simp)
        next hevent haction =>
        cases hcommand : parseRunCommand (req.comment.getD "") with
        | none => exact absurd h (by simp [hcommand])
        | some command =>
          simp only [hcommand, Except.ok.injEq, WebhookAnswer.task.injEq] at h
          subst h
          exact {
            configured := hsecret
            signed := ⟨body, hbody, verify_eq_true_iff.mp hverify⟩
            event := not_not.mp hevent
            action := not_not.mp haction
            command := parseRunCommand_iff.mp hcommand
            input := rfl }
  · rintro ⟨hsecret, ⟨body, hbody, hsigned⟩, hevent, haction, hcommand, hinput⟩
    have hparse : parseRunCommand (req.comment.getD "") =
        some { fixtureId := input.fixtureId, agentKind := input.agentKind } :=
      parseRunCommand_iff.mpr hcommand
    have hping : ¬ some "issue_comment" = some "ping" := by decide
    simp only [webhook, if_neg hsecret, hbody, verify_eq_true_iff.mpr hsigned, hevent, haction,
      hparse, hping, ne_eq, not_true_eq_false, if_false]
    exact congrArg (Except.ok ∘ WebhookAnswer.task) hinput.symm

/-- `createTask` keeps what the request gives. -/
theorem createTask_input {ctx : Context} {runs : List RunRows} {input : CreateTaskInput}
    {r : RunRows} (h : createTask ctx runs input = .ok r) :
    r.task.fixtureId = some input.fixtureId ∧ r.run.agentKind = input.agentKind ∧
      r.task.sourceRef = input.sourceRef := by
  simp only [createTask, bind_eq_ok, orThrow_eq_ok] at h
  obtain ⟨input', hinput, fixture, hfound, baseCommit, -, -, -, queued, hqueued, command, -,
    hrun⟩ := h
  have hgiven : input'.agentKind = input.agentKind ∧ input'.fixtureId = input.fixtureId ∧
      input'.sourceRef = input.sourceRef := by
    unfold demoInput at hinput
    split at hinput
    · simp only [bind_eq_ok, pure_eq_ok] at hinput
      obtain ⟨-, -, rfl⟩ := hinput
      exact ⟨rfl, rfl, rfl⟩
    · obtain rfl := pure_eq_ok.mp hinput
      exact ⟨rfl, rfl, rfl⟩
  obtain ⟨hagent, hfixture, hsource⟩ := hgiven
  have hid := ctx.fixtures.id_of_find hfound
  simp only [transitionTask, bind_eq_ok, pure_eq_ok] at hqueued
  obtain ⟨-, -, -, -, rfl⟩ := hqueued
  simp only [transitionRun, appendSyntheticEvent, recordEvent, bind_eq_ok, pure_eq_ok] at hrun
  obtain ⟨-, -, -, -, -, -, rfl⟩ := hrun
  exact ⟨congrArg some (hid.trans hfixture), hagent, hsource⟩

end

/-- **From an issue and back.** A request asks for a task exactly when it is
signed and the first command of its comment names an agent there is. The task
is for the fixture and the agent of that command, and keeps the address of the
issue whatever happens, so that what is told of it is told at that issue. -/
theorem issue_answered (hmacSha256 : JsString → List UInt8 → Sha256Digest) (secret : JsString)
    (numberText : Option ℚ → String)
    (hnumber : ∀ n : ℕ, n ≤ StringNumber.maxSafeInteger → numberText (some (n : ℚ)) = toString n)
    (req : WebhookRequest) (input : CreateTaskInput) :
    (webhook hmacSha256 secret req = .ok (.task input) ↔ AsksFor hmacSha256 secret req input) ∧
      (webhook hmacSha256 secret req = .ok (.task input) →
        ∀ (es es' : List Event) (env : Env) (r : RunRows),
          createTask ((machine.run es).creation env) (machine.run es).db.runs input = .ok r →
          ∃ r', (machine.run (es ++ .createTask env input :: es')).db.runs[
              (machine.run es).db.runs.length]? = some r' ∧
            r'.task.fixtureId = some input.fixtureId ∧ r'.run.agentKind = input.agentKind ∧
            r'.task.sourceRef = req.issueUrl ∧
            ∀ a : IssueAddress, a.Valid → req.issueUrl = some a.url →
              commentPath numberText r'.task.sourceRef = some a.commentPath) := by
  refine ⟨webhook_iff, fun hasked es es' env r hcreate => ?_⟩
  have hinput := (webhook_iff.mp hasked).input
  obtain ⟨hfixture, hagent, hsource⟩ := createTask_input hcreate
  have hissue : r.task.sourceRef = req.issueUrl := hsource.trans (by rw [hinput])
  have hreachable := machine.reachable_run es
  have hnew : (step (machine.run es) (.createTask env input)).db.runs[
      (machine.run es).db.runs.length]? = some r := by
    have hcommit : Event.commit? (machine.run es) (.createTask env input) =
        some { (machine.run es).db with runs := (machine.run es).db.runs ++ [r] } := by
      simp only [Event.commit?, hcreate, Except.toOption, created?, Option.map_some]
    simp only [step, hcommit]
    exact List.getElem?_concat_length
  obtain ⟨r', hr', hsame⟩ := sameInput_runFrom (hreachable.step (.createTask env input)) es' hnew
  have hfixture' : r'.task.fixtureId = some input.fixtureId := by rw [hsame.task, ← hfixture]
  have hissue' : r'.task.sourceRef = req.issueUrl := by rw [hsame.task, ← hissue]
  refine ⟨r', ?_, hfixture', hsame.agentKind.trans hagent, hissue',
    fun a ha haddress => ?_⟩
  · rw [machine.run_append, machine.runFrom_cons]
    exact hr'
  · rw [hissue', haddress]
    exact commentPath_url hnumber ha

/-- The address of a comment on an issue. -/
def smallIssue : IssueAddress where
  owner := "o"
  repo := "r"
  pull := false
  number := 7
  fragment := "#issuecomment-1"

/-- What stands for each HMAC. -/
def zeroDigest : Sha256Digest := ⟨List.replicate 32 0, rfl⟩

/-- A comment with a command in its second line. -/
def smallComment : WebhookRequest where
  rawBody := some [123, 125]
  signature := some (signatureScheme ++ zeroDigest.hex)
  event := some "issue_comment"
  action := some "created"
  comment := some "a bug\r\n/arp run fake\r\nthanks"
  issueUrl := some smallIssue.url

/-- The task it asks for. -/
def smallInput : CreateTaskInput where
  fixtureId := "fake"
  agentKind := .selfLanggraph
  sourceRef := some smallIssue.url

/-- How whole numbers are printed. -/
def decimalText : Option ℚ → String
  | some number => toString number.num
  | none => "Infinity"

/-- Its task is cancelled, and the issue is told all the same. -/
theorem issue_answered_of_comment :
    ∃ r, (machine.run [
        .createTask (envAt 0) smallInput, .request (envAt 1) (.cancel 0)]).db.runs[0]? = some r ∧
      commentPath decimalText r.task.sourceRef =
        some "/repos/o/r/issues/7/comments" := by
  have hlines : Pattern.lines isLineTerminator "a bug\r\n/arp run fake\r\nthanks".toList =
      ["a bug".toList, []] ++ "/arp run fake".toList :: [[], "thanks".toList] := by decide
  have hcommand : CommandLine "/arp run fake".toList "fake".toList none :=
    ⟨by decide, by decide, List.forall_iff_forall_mem.mp (by decide)⟩
  have hfirst : FirstCommand "a bug\r\n/arp run fake\r\nthanks" "fake".toList none := by
    refine ⟨_, _, _, hlines, fun earlier hearlier fixtureId' kind' h => ?_, hcommand⟩
    have hstart := h.start
    rcases List.mem_cons.mp hearlier with rfl | hearlier
    · exact absurd hstart (by decide)
    · rw [List.mem_singleton.mp hearlier] at hstart
      exact absurd hstart (by decide)
  have hasked : AsksFor (fun _ _ => zeroDigest) (.ofText "s3cret") smallComment smallInput := {
    configured := by decide
    signed := ⟨_, rfl, _, rfl, by decide⟩
    event := rfl
    action := rfl
    command := ⟨none, hfirst, by decide⟩
    input := rfl }
  have hissue := issue_answered (fun _ _ => zeroDigest) (.ofText "s3cret")
    decimalText (fun n _ => by rw [decimalText, Rat.num_natCast]; rfl) smallComment
    smallInput
  obtain ⟨r, hr, -, -, -, htold⟩ := hissue.2 (hissue.1.mpr hasked) []
    [.request (envAt 1) (.cancel 0)] (envAt 0) _ rfl
  have hvalid : smallIssue.Valid := by
    refine ⟨by decide, by decide, by decide, fun c hc => ?_⟩
    obtain rfl := Option.some.inj hc
    rfl
  refine ⟨r, hr, (htold smallIssue hvalid rfl).trans ?_⟩
  decide

end ControlPlane

end AgentReliability
