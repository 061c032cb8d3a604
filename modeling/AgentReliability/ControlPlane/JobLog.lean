import AgentReliability.Common.Guard
import AgentReliability.Common.Masking
import AgentReliability.Shared.TaskSnapshot
import Mathlib.Tactic.Common
/-!
# The log of a workflow job

`jobLog` downloads the log of a job from GitHub with the credential of the
repository, follows the redirect to the storage that has it, reads 200 KB at
most and masks what looks like a credential. The server and the storage
answer what they like: the results are about every answer.

The credential is sent to `api.github.com` and nowhere else, and the text
that is returned is the start of the log with the credential and everything
of the shape of a GitHub token under a mark, all else in place.
-/

namespace AgentReliability

namespace ControlPlane

open Masking

/-! ## `credential-store.ts` -/

/-- **A stored credential**: `save` has checked it. -/
structure CredentialValue where
  text : String
  notBlank : Shared.trim text ≠ ""
  short : Shared.utf16Length text ≤ 8192
  oneLine : text.toList.any (· ∈ ['\r', '\n', '\x00']) = false

/-- The files below `credentials`, by their names. -/
abbrev CredentialStore := List (String × CredentialValue)

/-- `save`, with the `randomUUID` it draws. The flag `wx` refuses a name that
is taken. -/
def CredentialStore.save (store : CredentialStore) (kind value uuid : String) :
    Except String (String × CredentialStore) :=
  if h : kind ∈ ["github", "model"] ∧ Shared.trim value ≠ "" ∧ Shared.utf16Length value ≤ 8192 ∧
      value.toList.any (· ∈ ['\r', '\n', '\x00']) = false then
    let ref := kind ++ "-" ++ uuid
    if (store.lookup ref).isSome then .error "EEXIST"
    else .ok (ref, (ref, ⟨value, h.2.1, h.2.2.1, h.2.2.2⟩) :: store)
  else .error "Invalid credential"

/-- `[a-f0-9-]{36}`. -/
def isUuidText (cs : List Char) : Bool :=
  cs.length = 36 && cs.all fun c => ('a' ≤ c ∧ c ≤ 'f') || ('0' ≤ c ∧ c ≤ '9') || c = '-'

/-- `/^(github|model)-[a-f0-9-]{36}$/`. -/
def isCredentialReference (ref : String) : Bool :=
  ["github-", "model-"].any fun kind =>
    kind.toList.isPrefixOf ref.toList && isUuidText (ref.toList.drop kind.toList.length)

/-- `read`. -/
def CredentialStore.read (store : CredentialStore) (ref : String) :
    Except String CredentialValue :=
  if isCredentialReference ref then
    match store.lookup ref with
    | some value => .ok value
    | none => .error "ENOENT"
  else .error "Invalid credential reference"

/-- `credential ? this.credentials.read(credential) : ''`. -/
def CredentialStore.token (store : CredentialStore) : Option String → Except String (List Char)
  | none => .ok []
  | some ref => if ref = "" then .ok [] else (store.read ref).map fun value => value.text.toList

/-! ## The requests and the answers -/

inductive RedirectMode where
  | manual | error
  deriving DecidableEq, Repr

/-- What `fetch` is called with. -/
structure FetchRequest where
  url : String
  redirect : RedirectMode
  headers : List (String × List Char)

/-- A body: the chunks its reader gives, and how it breaks off after them, if
it does. -/
structure ResponseBody where
  chunks : List (List UInt8)
  failure : Option String := none

structure FetchResponse where
  status : ℕ
  /-- `response.headers.get('location')`. -/
  location : Option String := none
  body : Option ResponseBody := none

/-- What the service works with: the network, `new URL(…).protocol`, the
decoder of a buffer and the stored credentials. -/
structure LogEnv where
  fetch : FetchRequest → Except String FetchResponse
  protocol : String → Except String String
  decode : List UInt8 → List Char
  credentials : CredentialStore

/-! ## `jobLog` -/

def logLimit : ℕ := 200000

def redactedInner : List Char := "REDACTED".toList

/-- `[REDACTED]`. -/
def redacted : List Char := '[' :: redactedInner ++ [']']

/-- The line below a log that was cut. -/
def cutNotice : List Char := "\n[log truncated at 200 KB]".toList

/-- `[A-Za-z0-9_]`. -/
def isWordChar (c : Char) : Bool :=
  ('A' ≤ c ∧ c ≤ 'Z') || ('a' ≤ c ∧ c ≤ 'z') || ('0' ≤ c ∧ c ≤ '9') || c = '_'

/-- The end of a match, where at least one word character follows the start. -/
def wordTail (start : ℕ) (cs : List Char) : ℕ :=
  match (cs.takeWhile isWordChar).length with
  | 0 => 0
  | n + 1 => start + (n + 1)

/-- `(?:gh[pousr]_[A-Za-z0-9_]+|github_pat_[A-Za-z0-9_]+)`: how many characters
match at the head of a text. -/
def credentialAt : List Char → ℕ
  | 'g' :: 'h' :: kind :: '_' :: cs => if kind ∈ "pousr".toList then wordTail 4 cs else 0
  | 'g' :: 'i' :: 't' :: 'h' :: 'u' :: 'b' :: '_' :: 'p' :: 'a' :: 't' :: '_' :: cs =>
    wordTail 11 cs
  | _ => 0

/-- Where `split(token)` splits. -/
def tokenAt (token text : List Char) : ℕ := if token.isPrefixOf text then token.length else 0

/-- The two replacements of `jobLog`, one after the other. -/
def redact (token text : List Char) : List Char :=
  mask credentialAt redacted (if token = [] then text else mask (tokenAt token) redacted text)

/-- The loop over the chunks: what is read after `total` bytes. -/
def readChunks (failure : Option String) : ℕ → List (List UInt8) → Except String (List UInt8)
  | total, [] =>
    if total < logLimit then
      match failure with
      | some e => .error e
      | none => .ok []
    else .ok []
  | total, next :: chunks =>
    if total < logLimit then do
      let chunk := next.take (logLimit - total)
      let rest ← readChunks failure (total + chunk.length) chunks
      return chunk ++ rest
    else .ok []

def logUrl (repo : String) (jobId : ℕ) : String :=
  s!"https://api.github.com/repos/{repo}/actions/jobs/{jobId}/logs"

def logRequest (repo : String) (jobId : ℕ) (token : List Char) : FetchRequest where
  url := logUrl repo jobId
  redirect := .manual
  headers := ("Accept", "application/vnd.github+json".toList) ::
    if token = [] then [] else [("Authorization", "Bearer ".toList ++ token)]

/-- The second request, to the place a redirect names. -/
def downloadRequest (env : LogEnv) (location : Option String) : Except String FetchRequest := do
  let some url := location | throw "Invalid log download location"
  if url = "" then throw "Invalid log download location"
  if (← env.protocol url) ≠ "https:" then throw "Invalid log download location"
  return { url, redirect := .error, headers := [] }

def unavailable (status : ℕ) : String :=
  s!"Logs unavailable (HTTP {status}); provide failure evidence manually"

/-- The text of a response. -/
def logText (env : LogEnv) (token : List Char) (result : FetchResponse) :
    Except String (List Char) := do
  let some body := result.body | throw (unavailable result.status)
  if ¬ (200 ≤ result.status ∧ result.status < 300) then throw (unavailable result.status)
  let bytes ← readChunks body.failure 0 body.chunks
  return redact token (env.decode bytes) ++ if logLimit ≤ bytes.length then cutNotice else []

/-- `jobLog`, with the requests it sends. -/
def jobLog (env : LogEnv) (repo : String) (jobId : ℕ) (credential : Option String) :
    List FetchRequest × Except String (List Char) :=
  match env.credentials.token credential with
  | .error e => ([], .error e)
  | .ok token =>
    let first := logRequest repo jobId token
    match env.fetch first with
    | .error e => ([first], .error e)
    | .ok response =>
      if response.status = 302 then
        match downloadRequest env response.location with
        | .error e => ([first], .error e)
        | .ok second => ([first, second], env.fetch second >>= logText env token)
      else ([first], logText env token response)

/-! ## What is read -/

/-- **The start of the body is read, however it comes in chunks.** -/
theorem readChunks_eq {failure : Option String} {total : ℕ} {chunks : List (List UInt8)}
    {bytes : List UInt8} (h : readChunks failure total chunks = .ok bytes) :
    bytes = chunks.flatten.take (logLimit - total) := by
  induction chunks generalizing total bytes with
  | nil =>
    rw [List.flatten_nil, List.take_nil]
    unfold readChunks at h
    split at h
    · cases failure with
      | none => exact (Except.ok.inj h).symm
      | some e => exact absurd h (by simp)
    · exact (Except.ok.inj h).symm
  | cons next chunks ih =>
    unfold readChunks at h
    split at h
    · next hlt =>
      simp only [bind_eq_ok, pure_eq_ok] at h
      obtain ⟨rest, hrest, rfl⟩ := h
      rw [ih hrest, List.flatten_cons, List.take_append, List.length_take]
      congr 2
      omega
    · next hle =>
      rw [← Except.ok.inj h, Nat.sub_eq_zero_of_le (Nat.le_of_not_lt hle), List.take_zero]

/-! ## What looks like a credential -/

/-- **The shape of a token of GitHub**, as the pattern has it. -/
inductive CredentialWord : List Char → Prop
  | short {kind : Char} {tail : List Char} (hkind : kind ∈ "pousr".toList) (hne : tail ≠ [])
      (htail : ∀ c ∈ tail, isWordChar c) : CredentialWord ('g' :: 'h' :: kind :: '_' :: tail)
  | fine {tail : List Char} (hne : tail ≠ []) (htail : ∀ c ∈ tail, isWordChar c) :
      CredentialWord ("github_pat_".toList ++ tail)

theorem wordTail_le (start : ℕ) (cs : List Char) : wordTail start cs ≤ start + cs.length := by
  have hle := (List.takeWhile_prefix isWordChar (l := cs)).length_le
  unfold wordTail
  split
  · omega
  · next n hn => omega

/-- A match is of the shape, and a text that starts with the shape has one. -/
theorem wordTail_eq {start n : ℕ} {cs : List Char} (h : wordTail start cs = n) (hn : 0 < n) :
    ∃ k, n = start + k ∧ cs.take k ≠ [] ∧ ∀ c ∈ cs.take k, isWordChar c := by
  have htake : cs.take (cs.takeWhile isWordChar).length = cs.takeWhile isWordChar :=
    (List.prefix_iff_eq_take.mp (List.takeWhile_prefix isWordChar)).symm
  unfold wordTail at h
  split at h
  · omega
  · next k hk =>
    have hk : (cs.takeWhile isWordChar).length = k + 1 := hk
    refine ⟨k + 1, h.symm, ?_, ?_⟩
    · rw [← hk, htake, ← List.length_pos_iff_ne_nil]
      omega
    · rw [← hk, htake]
      exact fun c hc => List.mem_takeWhile_imp hc

theorem wordTail_pos {start : ℕ} {tail cs : List Char} (hne : tail ≠ [])
    (htail : ∀ c ∈ tail, isWordChar c) (h : tail <+: cs) : 0 < wordTail start cs := by
  obtain ⟨c, tail, rfl⟩ := List.exists_cons_of_ne_nil hne
  obtain ⟨rest, rfl⟩ := h
  have hc := htail c List.mem_cons_self
  rw [wordTail, List.cons_append, List.takeWhile_cons_of_pos hc, List.length_cons]
  exact Nat.lt_of_lt_of_le (Nat.succ_pos _) (Nat.le_add_left _ _)

theorem credentialAt_le (cs : List Char) : credentialAt cs ≤ cs.length := by
  unfold credentialAt
  split
  · next kind cs =>
    have hle := wordTail_le 4 cs
    simp only [List.length_cons]
    split <;> omega
  · next cs =>
    have hle := wordTail_le 11 cs
    simp only [List.length_cons]
    omega
  · exact Nat.zero_le _

/-- **A match is a credential word.** -/
theorem credentialWord_of_matched {w : List Char} (h : Matched credentialAt w) :
    CredentialWord w := by
  obtain ⟨hne, rest, hm⟩ := h
  have hpos : 0 < w.length := List.length_pos_of_ne_nil hne
  have hw : w = (w ++ rest).take w.length := List.take_left.symm
  rw [hw]
  generalize w ++ rest = cs at hm
  generalize w.length = n at hm hpos
  unfold credentialAt at hm
  split at hm
  · next kind cs =>
    split at hm
    · next hkind =>
      obtain ⟨k, rfl, hk, hchars⟩ := wordTail_eq hm hpos
      rw [Nat.add_comm]
      exact .short hkind hk hchars
    · omega
  · next cs =>
    obtain ⟨k, rfl, hk, hchars⟩ := wordTail_eq hm hpos
    rw [Nat.add_comm]
    exact .fine hk hchars
  · omega

theorem CredentialWord.found {w cs : List Char} (hw : CredentialWord w) (h : w <+: cs) :
    0 < credentialAt cs := by
  obtain ⟨rest, rfl⟩ := h
  cases hw with
  | @short kind tail hkind hne htail =>
    simp only [List.cons_append, credentialAt]
    rw [if_pos hkind]
    exact wordTail_pos hne htail (List.prefix_append _ _)
  | @fine tail hne htail =>
    exact wordTail_pos hne htail (List.prefix_append _ _)

theorem CredentialWord.wordChars {w : List Char} (hw : CredentialWord w) :
    ∀ c ∈ w, isWordChar c := by
  have hkinds : "pousr".toList.all isWordChar := by decide
  have hstart : "github_pat_".toList.all isWordChar := by decide
  intro c hc
  cases hw with
  | @short kind tail hkind hne htail =>
    rcases List.mem_cons.mp hc with rfl | hc
    · decide
    rcases List.mem_cons.mp hc with rfl | hc
    · decide
    rcases List.mem_cons.mp hc with rfl | hc
    · exact List.all_eq_true.mp hkinds c hkind
    rcases List.mem_cons.mp hc with rfl | hc
    · decide
    · exact htail c hc
  | fine hne htail =>
    rcases List.mem_append.mp hc with hc | hc
    · exact List.all_eq_true.mp hstart c hc
    · exact htail c hc

theorem CredentialWord.underscore {w : List Char} (hw : CredentialWord w) : '_' ∈ w := by
  cases hw with
  | short => simp
  | fine => exact List.mem_append_left _ (by decide)

/-- A word of the pattern is not in a text without underscores. -/
theorem CredentialWord.not_infix {w text : List Char} (hw : CredentialWord w)
    (htext : '_' ∉ text) : ¬ w <:+: text :=
  fun h => htext (h.subset hw.underscore)

theorem CredentialWord.apart {w : List Char} (hw : CredentialWord w) :
    Apart '[' ']' redactedInner w where
  ne_nil := List.ne_nil_of_mem hw.underscore
  noOpen h := absurd (hw.wordChars _ h) (by decide)
  noClose h := absurd (hw.wordChars _ h) (by decide)
  notInner := hw.not_infix (by decide)

/-! ## What is returned -/

/-- **A token that can be told from the marks**: it has no bracket, and is no
part of the words the service itself writes. -/
structure Maskable (token : List Char) : Prop extends Apart '[' ']' redactedInner token where
  notNotice : ¬ token <:+: "log truncated at 200 KB".toList

theorem eq_of_matched_tokenAt {token w : List Char} (h : Matched (tokenAt token) w) :
    w = token := by
  obtain ⟨hne, rest, hm⟩ := h
  have hpos : 0 < w.length := List.length_pos_of_ne_nil hne
  unfold tokenAt at hm
  split at hm
  · next hprefix =>
    have htoken := List.prefix_iff_eq_take.mp (List.isPrefixOf_iff_prefix.mp hprefix)
    rw [hm, List.take_left] at htoken
    exact htoken.symm
  · omega

theorem tokenAt_le (token cs : List Char) : tokenAt token cs ≤ cs.length := by
  unfold tokenAt
  split
  · next hprefix => exact (List.isPrefixOf_iff_prefix.mp hprefix).length_le
  · exact Nat.zero_le _

/-- **Two replacements hide the credentials and leave the rest in place.** -/
theorem masked_redact (token text : List Char) :
    Masked (fun w => w = token ∨ CredentialWord w) redacted text (redact token text) := by
  have hfirst : Masked (· = token) redacted text
      (if token = [] then text else mask (tokenAt token) redacted text) := by
    split
    · exact .refl text
    · exact (masked_mask (tokenAt_le token) text).weaken fun w => eq_of_matched_tokenAt
  have hsecond : Masked CredentialWord redacted
      (if token = [] then text else mask (tokenAt token) redacted text) (redact token text) :=
    (masked_mask credentialAt_le _).weaken fun w => credentialWord_of_matched
  exact hfirst.trans hsecond fun w => CredentialWord.apart

/-- **Nothing of the shape of a credential is left.** -/
theorem CredentialWord.not_infix_redact {w : List Char} (hw : CredentialWord w)
    (token text : List Char) : ¬ w <:+: redact token text :=
  not_infix_mask hw.apart fun _ => hw.found

/-- **The credential itself is not left either.** -/
theorem Maskable.not_infix_redact {token : List Char} (ht : Maskable token) (text : List Char) :
    ¬ token <:+: redact token text := by
  refine not_infix_mask_of_not_infix ht.toApart ?_
  rw [if_neg ht.ne_nil]
  refine not_infix_mask ht.toApart fun cs hcs => ?_
  rw [tokenAt, if_pos (List.isPrefixOf_iff_prefix.mpr hcs)]
  exact List.length_pos_of_ne_nil ht.ne_nil

/-- The notice adds nothing that has no line feed and is not in its line. -/
theorem not_infix_notice {w shown : List Char} (cut : Prop) [Decidable cut] (hfeed : '\n' ∉ w)
    (hshown : ¬ w <:+: shown) (hline : ¬ w <:+: cutNotice.tail) :
    ¬ w <:+: shown ++ if cut then cutNotice else [] := by
  split
  · have hnotice : cutNotice = '\n' :: cutNotice.tail := by decide
    rw [hnotice, TextLines.infix_append_cons_iff hfeed]
    exact not_or.mpr ⟨hshown, hline⟩
  · rwa [List.append_nil]

theorem CredentialWord.not_infix_notice {w : List Char} (hw : CredentialWord w) (token text)
    (cut : Prop) [Decidable cut] :
    ¬ w <:+: redact token text ++ if cut then cutNotice else [] := by
  refine ControlPlane.not_infix_notice cut (fun h => absurd (hw.wordChars _ h) (by decide))
    (hw.not_infix_redact token text) (hw.not_infix (by decide))

theorem Maskable.not_infix_notice {token : List Char} (ht : Maskable token) (hfeed : '\n' ∉ token)
    (text) (cut : Prop) [Decidable cut] :
    ¬ token <:+: redact token text ++ if cut then cutNotice else [] := by
  refine ControlPlane.not_infix_notice cut hfeed (ht.not_infix_redact text) ?_
  have hline : cutNotice.tail = [] ++ '[' :: ("log truncated at 200 KB".toList ++ ']' :: []) := by
    decide
  rw [hline, TextLines.infix_append_cons_iff ht.noOpen, TextLines.infix_append_cons_iff ht.noClose,
    List.infix_nil]
  exact not_or.mpr ⟨ht.ne_nil, not_or.mpr ⟨ht.notNotice, ht.ne_nil⟩⟩

/-- A token that is sent fits in a line. -/
theorem CredentialStore.token_oneLine {store : CredentialStore} {credential : Option String}
    {token : List Char} (h : store.token credential = .ok token) : '\n' ∉ token := by
  cases credential with
  | none =>
    rw [← Except.ok.inj h]
    exact List.not_mem_nil
  | some ref =>
    simp only [CredentialStore.token] at h
    split at h
    · rw [← Except.ok.inj h]
      exact List.not_mem_nil
    · cases hread : store.read ref with
      | error e => rw [hread] at h; exact absurd h (by simp [Except.map])
      | ok value =>
        rw [hread] at h
        rw [← Except.ok.inj h]
        exact fun hmem => List.any_eq_false.mp value.oneLine _ hmem (by decide)

/-- **The text of a response.** -/
theorem logText_eq_ok {env : LogEnv} {token text : List Char} {result : FetchResponse}
    (h : logText env token result = .ok text) :
    ∃ body, result.body = some body ∧ text =
      redact token (env.decode (body.chunks.flatten.take logLimit)) ++
        if logLimit ≤ body.chunks.flatten.length then cutNotice else [] := by
  unfold logText at h
  split at h
  · next body hbody =>
    refine ⟨body, hbody, ?_⟩
    split at h
    · exact absurd h (by simp)
    simp only [bind_eq_ok, pure_eq_ok] at h
    obtain ⟨bytes, hbytes, rfl⟩ := h
    have hcut : logLimit ≤ min logLimit body.chunks.flatten.length ↔
        logLimit ≤ body.chunks.flatten.length := by omega
    rw [readChunks_eq hbytes, Nat.sub_zero, List.length_take]
    simp only [hcut]
  · exact absurd h (by simp)

/-- A second request goes to an `https` address, with no headers. -/
theorem downloadRequest_eq_ok {env : LogEnv} {location : Option String} {request : FetchRequest}
    (h : downloadRequest env location = .ok request) :
    env.protocol request.url = .ok "https:" ∧ request.headers = [] := by
  unfold downloadRequest at h
  split at h
  · next url =>
    split at h
    · exact absurd h (by simp)
    simp only [bind_eq_ok] at h
    obtain ⟨protocol, hprotocol, h⟩ := h
    split at h
    · simp only [bind_eq_ok] at h
      obtain ⟨_, hthrow, -⟩ := h
      exact absurd hthrow throw_ne_ok
    · next hhttps =>
      rw [Classical.not_not] at hhttps
      rw [← pure_eq_ok.mp h]
      exact ⟨hhttps ▸ hprotocol, rfl⟩
  · exact absurd h (by simp)

/-- **A text that shows the log**: one of the requests was answered with a
body, and the text is its first 200 KB with the credential and the words of
the pattern under a mark, and the notice where the body is longer. -/
def ShowsLog (env : LogEnv) (sent : List FetchRequest) (token text : List Char) : Prop :=
  ∃ request ∈ sent, ∃ response, env.fetch request = .ok response ∧
    ∃ body, response.body = some body ∧ ∃ shown,
      Masked (fun w => w = token ∨ CredentialWord w) redacted
        (env.decode (body.chunks.flatten.take logLimit)) shown ∧
      text = shown ++ if logLimit ≤ body.chunks.flatten.length then cutNotice else []

/-- **A log is handed out without its credentials.** Whatever the servers
answer, the credential goes to GitHub alone: at most one more request is
sent, to an `https` address and with no headers. A text that is returned
shows the log, and neither the credential nor any word of the shape of a
GitHub token is left in it. -/
theorem job_log_masked (env : LogEnv) (repo : String) (jobId : ℕ) (credential : Option String) :
    let sent := (jobLog env repo jobId credential).1
    let result := (jobLog env repo jobId credential).2
    (sent.length ≤ 2 ∧ ∀ request ∈ sent, (request.url = logUrl repo jobId ∧
      request.redirect = .manual) ∨
        (env.protocol request.url = .ok "https:" ∧ request.headers = [])) ∧
    ∀ text, result = .ok text → ∃ token, env.credentials.token credential = .ok token ∧
      ShowsLog env sent token text ∧
      (∀ w, CredentialWord w → ¬ w <:+: text) ∧ (Maskable token → ¬ token <:+: text) := by
  have hmasked : ∀ (sent : List FetchRequest) token text request response,
      env.credentials.token credential = .ok token → request ∈ sent →
      env.fetch request = .ok response → logText env token response = .ok text →
      ∃ token, env.credentials.token credential = .ok token ∧ ShowsLog env sent token text ∧
        (∀ w, CredentialWord w → ¬ w <:+: text) ∧ (Maskable token → ¬ token <:+: text) := by
    intro sent token text request response htoken hrequest hfetch h
    obtain ⟨body, hbody, rfl⟩ := logText_eq_ok h
    exact ⟨token, htoken,
      ⟨request, hrequest, response, hfetch, body, hbody, _, masked_redact token _, rfl⟩,
      fun w hw => hw.not_infix_notice token _ _,
      fun ht => ht.not_infix_notice (CredentialStore.token_oneLine htoken) _ _⟩
  unfold jobLog
  split
  · exact ⟨⟨Nat.zero_le _, fun _ h => absurd h List.not_mem_nil⟩, fun _ h => absurd h (by simp)⟩
  · next token htoken =>
    have hfirst : ∀ request ∈ [logRequest repo jobId token], (request.url = logUrl repo jobId ∧
        request.redirect = .manual) ∨
          (env.protocol request.url = .ok "https:" ∧ request.headers = []) := by
      intro request h
      rw [List.mem_singleton.mp h]
      exact .inl ⟨rfl, rfl⟩
    simp only
    split
    · exact ⟨⟨Nat.le_succ 1, hfirst⟩, fun _ h => absurd h (by simp)⟩
    · next response hresponse =>
      split
      · split
        · exact ⟨⟨Nat.le_succ 1, hfirst⟩, fun _ h => absurd h (by simp)⟩
        · next second hsecond =>
          refine ⟨⟨Nat.le_refl 2, fun request h => ?_⟩, fun text h => ?_⟩
          · rcases List.mem_cons.mp h with rfl | h
            · exact hfirst _ List.mem_cons_self
            · rw [List.mem_singleton.mp h]
              exact .inr (downloadRequest_eq_ok hsecond)
          · obtain ⟨result, hresult, h⟩ := bind_eq_ok.mp h
            exact hmasked _ token text second result htoken
              (List.mem_cons_of_mem _ List.mem_cons_self) hresult h
      · exact ⟨⟨Nat.le_succ 1, hfirst⟩, fun text h =>
          hmasked _ token text _ response htoken List.mem_cons_self hresponse h⟩

/-- A log at the storage that has the credential in it, across two chunks, and
another one. -/
def exampleLog : LogEnv where
  fetch request :=
    if request.headers = [] then
      let chunks := ["key s3", "cret, ghp_a1!"].map fun part => part.toList.map (.ofNat ·.toNat)
      .ok { status := 200, body := some { chunks } }
    else .ok { status := 302, location := some "https://storage" }
  protocol _ := .ok "https:"
  decode bytes := bytes.map fun b => Char.ofNat b.toNat
  credentials := [("github-00000000-0000-4000-8000-000000000000",
    ⟨"s3cret", by decide, by decide, by simp⟩)]

example : (jobLog exampleLog "octo/app" 7 (some "github-00000000-0000-4000-8000-000000000000")).2 =
    .ok "key [REDACTED], [REDACTED]!".toList := by decide +kernel

end ControlPlane

end AgentReliability
