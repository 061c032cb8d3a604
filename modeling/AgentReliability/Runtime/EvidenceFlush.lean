import Mathlib.Data.List.AList
import AgentReliability.Common.Guard
import AgentReliability.Common.PythonJson
/-!
# One call of `flush_evidence`

The loop reads a file of the spool, posts it and removes it, and whatever a
file raises ends the call: the files that are listed behind it are left for
the next one. Which files a call gets to is thus decided by the order of the
directory, and a file the control plane never takes can hold back the rest
for good.
-/

namespace AgentReliability

namespace Runtime

namespace EvidenceFlush

/-- The text of a file; there is none where `read_text` raises. -/
abbrev FileText := Option String

inductive FlushError where
  /-- `path.read_text()`. -/
  | unreadable
  /-- `json.loads`. -/
  | notJson
  /-- `payload['attemptId']`. -/
  | noAttemptId
  /-- The request itself. -/
  | transport
  /-- `response.raise_for_status()`. -/
  | status (code : ℕ)
  deriving DecidableEq, Repr

/-- `payload[key]`. -/
def getItem (payload : PyValue) (key : String) : Option PyValue :=
  match payload with
  | .dict members => members.lookup key
  | _ => none

/-- What answers a file: `json.loads`, and the response of the control plane
to an attempt's evidence, by its status, unless the request fails. -/
structure Endpoint where
  loads : String → Option PyValue
  post : PyValue → PyValue → Option ℕ

/-- The spool's `*.json`, in the order the directory is listed in. -/
structure Listing where
  files : AList (fun _ : String => FileText)
  names : List String
  perm : names.Perm files.keys

/-- What a call has made of the spool so far. -/
structure Progress where
  files : AList (fun _ : String => FileText)
  uploaded : List (String × PyValue) := []

section

variable (e : Endpoint)

/-- The body of the loop, up to the `unlink`. -/
def upload (text : FileText) : Except FlushError PyValue := do
  let text ← orThrow text .unreadable
  let payload ← orThrow (e.loads text) .notJson
  let attemptId ← orThrow (getItem payload "attemptId") .noAttemptId
  let code ← orThrow (e.post attemptId payload) .transport
  require (200 ≤ code ∧ code < 300) (.status code)
  return payload

/-- `flush_evidence`, over the files that are still to come. -/
def flushEvidence : List String → Progress → Progress × Option FlushError
  | [], s => (s, none)
  | name :: names, s =>
    match s.files.lookup name with
    | none => (s, some .unreadable)
    | some text =>
      match upload e text with
      | .error error => (s, some error)
      | .ok payload =>
        flushEvidence names ⟨s.files.erase name, s.uploaded ++ [(name, payload)]⟩

/-- The file can be parsed, and its upload is accepted. -/
def IsGood (text : FileText) : Prop := ∃ payload, upload e text = .ok payload

instance (text : FileText) : Decidable (IsGood e text) :=
  match h : upload e text with
  | .ok payload => isTrue ⟨payload, h⟩
  | .error error => isFalse fun ⟨payload, hok⟩ => by rw [h] at hok; exact absurd hok (by simp)

/-- The file of that name is good. -/
def goodName (files : AList (fun _ : String => FileText)) (name : String) : Bool :=
  (files.lookup name).any fun text => decide (IsGood e text)

/-- **A call gets past bad files**: every good file is uploaded and removed,
and every other one is left as it was. -/
def GetsPast (l : Listing) : Prop :=
  let s := (flushEvidence e l.names ⟨l.files, []⟩).1
  ∀ name text, l.files.lookup name = some text →
    (IsGood e text → s.files.lookup name = none ∧ ∃ payload, (name, payload) ∈ s.uploaded ∧
      upload e text = .ok payload) ∧
    (¬ IsGood e text → s.files.lookup name = some text)

/-- No good file is listed behind a bad one. -/
def BadLast (l : Listing) : Prop :=
  l.names.Pairwise fun a b => goodName e l.files b → goodName e l.files a

end

variable {e : Endpoint} {files : AList (fun _ : String => FileText)} {s : Progress}
  {name : String} {names : List String} {text : FileText}

theorem goodName_iff (h : files.lookup name = some text) :
    goodName e files name ↔ IsGood e text := by
  rw [goodName, h, Option.any_some, decide_eq_true_eq]

/-- **A file that raises ends the call.** -/
theorem flushEvidence_of_bad (h : goodName e s.files name = false) :
    (flushEvidence e (name :: names) s).1 = s := by
  unfold flushEvidence
  cases hlookup : s.files.lookup name with
  | none => rfl
  | some text =>
    rw [goodName, hlookup, Option.any_some, decide_eq_false_iff_not] at h
    cases hupload : upload e text with
    | error error => simp only [hupload]
    | ok payload => exact absurd ⟨payload, hupload⟩ h

/-- **It can hold back the rest for good**: the calls that list it first leave
the spool as it is, however many they are. -/
theorem held_back (h : goodName e s.files name = false) (n : ℕ) :
    (fun s => (flushEvidence e (name :: names) s).1)^[n] s = s :=
  Function.iterate_fixed (flushEvidence_of_bad h) n

/-- A file that is taken is removed, and the call goes on. -/
theorem flushEvidence_of_good {payload : PyValue} (hlookup : s.files.lookup name = some text)
    (hupload : upload e text = .ok payload) :
    flushEvidence e (name :: names) s =
      flushEvidence e names ⟨s.files.erase name, s.uploaded ++ [(name, payload)]⟩ := by
  rw [flushEvidence]
  simp only [hlookup, hupload]

/-- What is uploaded stays so. -/
theorem uploaded_mono {entry : String × PyValue} (h : entry ∈ s.uploaded) :
    entry ∈ (flushEvidence e names s).1.uploaded := by
  induction names generalizing s with
  | nil => exact h
  | cons name names ih =>
    unfold flushEvidence
    split
    · exact h
    · split
      · exact h
      · exact ih (List.mem_append_left _ h)

/-- **A call takes the files up to the first bad one**, and no other. -/
theorem flushEvidence_spec (hnodup : names.Nodup)
    (hagree : ∀ name ∈ names, s.files.lookup name = files.lookup name)
    (hmem : ∀ name ∈ names, name ∈ files) :
    (∀ name, (flushEvidence e names s).1.files.lookup name =
      if name ∈ names.takeWhile (goodName e files) then none else s.files.lookup name) ∧
    ∀ name ∈ names.takeWhile (goodName e files), ∀ text, files.lookup name = some text →
      ∃ payload, (name, payload) ∈ (flushEvidence e names s).1.uploaded ∧
        upload e text = .ok payload := by
  induction names generalizing s with
  | nil => exact ⟨fun _ => rfl, fun _ h => absurd h List.not_mem_nil⟩
  | cons name names ih =>
    obtain ⟨hfresh, hnodup⟩ := List.nodup_cons.mp hnodup
    obtain ⟨hname, hnames⟩ := List.forall_mem_cons.mp hagree
    obtain ⟨text, hlookup⟩ :=
      Option.isSome_iff_exists.mp (AList.lookup_isSome.mpr (hmem name List.mem_cons_self))
    cases hgood : goodName e files name with
    | false =>
      have hbad : goodName e s.files name = false := by rw [goodName, hname, ← goodName, hgood]
      rw [flushEvidence_of_bad hbad, List.takeWhile_cons_of_neg (by simp [hgood])]
      exact ⟨fun _ => rfl, fun _ h => absurd h List.not_mem_nil⟩
    | true =>
      obtain ⟨payload, hupload⟩ := (goodName_iff hlookup).mp hgood
      have hrest : ∀ other ∈ names, (s.files.erase name).lookup other = files.lookup other := by
        intro other hother
        have hne : other ≠ name := by
          rintro rfl
          exact hfresh hother
        rw [AList.lookup_erase_ne hne]
        exact hnames other hother
      obtain ⟨hfiles, huploaded⟩ :=
        @ih ⟨s.files.erase name, s.uploaded ++ [(name, payload)]⟩ hnodup hrest
          fun other hother => hmem other (List.mem_cons_of_mem _ hother)
      rw [flushEvidence_of_good (hname.trans hlookup) hupload, List.takeWhile_cons_of_pos hgood]
      constructor
      · intro other
        rw [hfiles]
        by_cases hother : other = name
        · subst hother
          rw [if_pos List.mem_cons_self, AList.lookup_erase, ite_self]
        · simp only [List.mem_cons, hother, false_or, AList.lookup_erase_ne hother]
      · intro other hother text' htext'
        rcases List.mem_cons.mp hother with rfl | hother
        · obtain rfl := Option.some.inj (hlookup.symm.trans htext')
          exact ⟨payload, uploaded_mono (by simp), hupload⟩
        · exact huploaded other hother text' htext'

/-- What stands behind no element that fails is what is taken from the front. -/
theorem forall_mem_takeWhile_iff {α : Type*} {p : α → Bool} {l : List α} (hnodup : l.Nodup) :
    (∀ b ∈ l, p b → b ∈ l.takeWhile p) ↔ l.Pairwise fun a b => p b → p a := by
  induction l with
  | nil => simp
  | cons a l ih =>
    obtain ⟨hfresh, hnodup⟩ := List.nodup_cons.mp hnodup
    rw [List.pairwise_cons, ← ih hnodup, List.forall_mem_cons]
    cases ha : p a with
    | true =>
      rw [List.takeWhile_cons_of_pos ha]
      constructor
      · rintro ⟨-, hrest⟩
        refine ⟨fun _ _ _ => rfl, fun b hb hpb => ?_⟩
        rcases List.mem_cons.mp (hrest b hb hpb) with rfl | hmem
        · exact absurd hb hfresh
        · exact hmem
      · rintro ⟨-, hrest⟩
        exact ⟨fun _ => List.mem_cons_self, fun b hb hpb => List.mem_cons_of_mem _ (hrest b hb hpb)⟩
    | false =>
      rw [List.takeWhile_cons_of_neg (by simp [ha])]
      constructor
      · rintro ⟨-, hrest⟩
        exact ⟨fun b hb hpb => absurd (hrest b hb hpb) List.not_mem_nil,
          fun b hb hpb => absurd (hrest b hb hpb) List.not_mem_nil⟩
      · rintro ⟨hbad, -⟩
        exact ⟨fun h => absurd h (by simp), fun b hb hpb => absurd (hbad b hb hpb) (by simp)⟩

theorem getsPast_iff_takeWhile (e : Endpoint) (l : Listing) : GetsPast e l ↔
    ∀ name ∈ l.names, goodName e l.files name → name ∈ l.names.takeWhile (goodName e l.files) := by
  have hnodup : l.names.Nodup := l.perm.nodup_iff.mpr l.files.keys_nodup
  have hmem : ∀ name ∈ l.names, name ∈ l.files := fun name hname => l.perm.mem_iff.mp hname
  obtain ⟨hfiles, huploaded⟩ :=
    @flushEvidence_spec e l.files ⟨l.files, []⟩ l.names hnodup (fun _ _ => rfl) hmem
  constructor
  · intro h name hname hgood
    have hsome := AList.lookup_isSome.mpr (hmem name hname)
    obtain ⟨text, hlookup⟩ := Option.isSome_iff_exists.mp hsome
    have hgone := ((h name text hlookup).1 ((goodName_iff hlookup).mp hgood)).1
    rw [hfiles] at hgone
    by_contra hkept
    rw [if_neg hkept] at hgone
    exact absurd (hlookup.symm.trans hgone) (by simp)
  · intro h name text hlookup
    have hfile : name ∈ l.files := AList.lookup_isSome.mp (by rw [hlookup]; rfl)
    have hname : name ∈ l.names := l.perm.mem_iff.mpr hfile
    refine ⟨fun hgood => ?_, fun hbad => ?_⟩
    · have htaken := h name hname ((goodName_iff hlookup).mpr hgood)
      exact ⟨by rw [hfiles, if_pos htaken], huploaded name htaken text hlookup⟩
    · have hkept : name ∉ l.names.takeWhile (goodName e l.files) := by
        intro htaken
        have hgood := List.all_eq_true.mp List.all_takeWhile name htaken
        exact hbad ((goodName_iff hlookup).mp hgood)
      rw [hfiles, if_neg hkept]
      exact hlookup

/-- **A call gets past bad files exactly if no good file is listed behind a
bad one.** -/
theorem getsPast_iff (e : Endpoint) (l : Listing) : GetsPast e l ↔ BadLast e l := by
  rw [getsPast_iff_takeWhile]
  exact forall_mem_takeWhile_iff (l.perm.nodup_iff.mpr l.files.keys_nodup)

/-- The evidence of an attempt. -/
def evidenceOf (attemptId : String) : PyValue :=
  .dict [("attemptId", .str attemptId), ("patch", .str ""), ("report", .dict [])]

/-- A control plane that knows one of two attempts. -/
def oneAttempt : Endpoint where
  loads
    | "gone" => some (evidenceOf "gone")
    | "kept" => some (evidenceOf "kept")
    | _ => none
  post
    | .str "kept", _ => some 201
    | _, _ => some 500

/-- The evidence of the attempt it does not know is listed first. -/
def goneFirst : Listing where
  files := ⟨[⟨"gone.json", some "gone"⟩, ⟨"kept.json", some "kept"⟩], by simp⟩
  names := ["gone.json", "kept.json"]
  perm := .refl _

theorem goneFirst_not_getsPast : ¬ ∀ e l, GetsPast e l := by
  intro hall
  have hkept := (getsPast_iff_takeWhile oneAttempt goneFirst).mp (hall _ _) "kept.json" (by decide)
    (by decide)
  exact absurd hkept (by decide)

end EvidenceFlush

end Runtime

end AgentReliability
