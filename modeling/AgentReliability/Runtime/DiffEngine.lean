import AgentReliability.Common.Utf8
import AgentReliability.Runtime.GitDiff
/-!
# The diff of two trees

`git diff` pairs the paths that changed, compares the files of each pair, and
prints what it finds. A pair whose files are of different types is printed as
a deletion and a creation. What stands for a submodule is its commit.

Which files are paired by rename detection, which contents are binary and
which lines are shown is left to the engine, up to what git documents.
-/

namespace AgentReliability

namespace Runtime

open GitDiff Utf8

/-- The modes are of one type. -/
def FileMode.sameType (m n : FileMode) : Bool := m = n || (m.isFile && n.isFile)

/-- **What git leaves to its settings and heuristics.** -/
structure DiffEngine extends GitFiles where
  /-- The file at the path, with this content, is binary. -/
  binary : String → List UInt8 → Bool
  /-- How much of a file is in another, in percent. -/
  similarity : List UInt8 → List UInt8 → ℕ
  /-- The name of a content, as far as it is printed. -/
  objectName : Option (List UInt8) → ObjectName
  /-- What is shown of two contents. -/
  hunks : List UInt8 → List UInt8 → List (Hunk UInt8)
  /-- It is lines of the two. -/
  hunks_lines : ∀ {old new : List UInt8} {h : Hunk UInt8} {l : HunkLine UInt8},
    h ∈ hunks old new → l ∈ h.lines → l.content ∈ TextLines.split (ascii '\n') old ∨
      l.content ∈ TextLines.split (ascii '\n') new
  hunks_heading : ∀ {old new : List UInt8} {h : Hunk UInt8}, h ∈ hunks old new →
    ascii '\n' ∉ h.heading
  /-- Where they differ, a line is shown. -/
  hunks_show : ∀ {old new : List UInt8}, old ≠ new → ∃ h ∈ hunks old new, h.lines ≠ []

/-- Two versions of a file. -/
structure FilePair where
  oldPath : String
  newPath : String
  old : Option Blob
  new : Option Blob
  renamed : Bool := false
  copied : Bool := false

namespace FilePair

/-- What is compared: a change of type is a deletion and a creation. -/
def parts (p : FilePair) : List FilePair :=
  match p.old, p.new with
  | some old, some new =>
    if old.mode.sameType new.mode then [p] else [{ p with new := none }, { p with old := none }]
  | _, _ => [p]

theorem parts_cases {p q : FilePair} (hq : q ∈ p.parts) : q.oldPath = p.oldPath ∧
    q.newPath = p.newPath ∧ (q.old = none ∨ q.old = p.old) ∧ (q.new = none ∨ q.new = p.new) := by
  unfold parts at hq
  split at hq
  · split at hq
    · obtain rfl := List.mem_singleton.mp hq
      exact ⟨rfl, rfl, .inr rfl, .inr rfl⟩
    · rcases List.mem_pair.mp hq with rfl | rfl
      · exact ⟨rfl, rfl, .inr rfl, .inl rfl⟩
      · exact ⟨rfl, rfl, .inl rfl, .inr rfl⟩
  · obtain rfl := List.mem_singleton.mp hq
    exact ⟨rfl, rfl, .inr rfl, .inr rfl⟩

/-- The new version is compared. -/
theorem exists_part_new (p : FilePair) : ∃ q ∈ p.parts, q.new = p.new := by
  unfold parts
  split
  · split
    · exact ⟨p, List.mem_singleton_self p, rfl⟩
    · exact ⟨_, List.mem_cons_of_mem _ (List.mem_singleton_self _), rfl⟩
  · exact ⟨p, List.mem_singleton_self p, rfl⟩

/-- The two versions that are compared are of one type. -/
theorem sameType_of_part {p q : FilePair} (hq : q ∈ p.parts) {old new : Blob}
    (hold : q.old = some old) (hnew : q.new = some new) : old.mode.sameType new.mode := by
  unfold parts at hq
  split at hq
  · rename_i old' new' hold' hnew'
    split at hq
    · rename_i hsame
      obtain rfl := List.mem_singleton.mp hq
      rw [hold] at hold'
      rw [hnew] at hnew'
      rwa [Option.some.inj hold', Option.some.inj hnew']
    · rcases List.mem_pair.mp hq with rfl | rfl
      · exact absurd hnew (by simp)
      · exact absurd hold (by simp)
  · rename_i hnone
    obtain rfl := List.mem_singleton.mp hq
    exact absurd hnew (hnone old new hold)

end FilePair

/-- Hexadecimal digits, as they are printed. -/
def hexText (bytes : List UInt8) : String :=
  .ofList (bytes.flatMap fun b => [Nat.digitChar (b.toNat / 16), Nat.digitChar (b.toNat % 16)])

/-- The commit of a submodule. What is behind its 20 bytes stands for changes
of the submodule's own files. -/
def commitText (bytes : List UInt8) : String :=
  hexText (bytes.take 20) ++ if 20 < bytes.length then "-dirty" else ""

/-- The content git compares. -/
def Blob.shown (b : Blob) : List UInt8 :=
  if b.mode = .submodule then
    printText ascii ("Subproject commit " ++ commitText b.content) ++ [ascii '\n']
  else b.content

/-- No file has no content. -/
def contentOf (b : Option Blob) : List UInt8 := (b.map Blob.shown).getD []

namespace DiffEngine

variable (e : DiffEngine)

/-- The paths that are listed: of a renamed file the new one. -/
def names (t u : Tree) : List String :=
  ((t.changed u).filter fun path => path ∉ (e.renames t u).map Prod.fst).insertionSort (· ≤ ·)

def pairOf (t u : Tree) (path : String) : FilePair :=
  match (e.renames t u).find? fun rename => rename.2 = path with
  | some (old, _) =>
    { oldPath := old, newPath := path, old := t.blob old, new := u.blob path, renamed := true,
      copied := (e.renames t u).any fun rename => rename.1 = old && path < rename.2 }
  | none => { oldPath := path, newPath := path, old := t.blob path, new := u.blob path }

/-- What is compared, in order. -/
def compared (t u : Tree) : List FilePair :=
  (e.names t u).flatMap fun path => (e.pairOf t u path).parts

/-- A symlink or a submodule is not binary. -/
def isBinary (path : String) (b : Option Blob) : Bool :=
  match b with
  | some b => b.mode.isFile && e.binary path b.content
  | none => false

def body (p : FilePair) : Body UInt8 :=
  if contentOf p.old = contentOf p.new then .same
  else if e.isBinary p.oldPath p.old || e.isBinary p.newPath p.new then .binary
  else .text (e.hunks (contentOf p.old) (contentOf p.new))

def fileDiff (p : FilePair) : FileDiff UInt8 where
  oldPath := p.oldPath
  newPath := p.newPath
  oldMode := p.old.map Blob.mode
  newMode := p.new.map Blob.mode
  similarity := if p.renamed then some (e.similarity (contentOf p.old) (contentOf p.new)) else none
  copied := p.copied
  index := if p.old.map Blob.shown = p.new.map Blob.shown then none
    else some (e.objectName (p.old.map Blob.shown), e.objectName (p.new.map Blob.shown))
  body := e.body p

/-- The lines that are printed. -/
def printed (t u : Tree) : List (List UInt8) :=
  (e.compared t u).flatMap fun p => (e.fileDiff p).print ascii

/-- `git diff`, of two trees. -/
def diff (t u : Tree) : List UInt8 := printDiff ascii ((e.compared t u).map e.fileDiff)

theorem diff_eq (t u : Tree) :
    e.diff t u = (e.printed t u).flatMap fun line => line ++ [ascii '\n'] := by
  rw [diff, printDiff, printed, List.flatMap_map]

/-- The commands of a git with this engine. -/
def toGit : GitCommands := { e.toGitFiles with diff := fun t u => decode (e.diff t u) }

variable {e} {t u : Tree} {base : Commit} {w : Checkout}

theorem diff_toGit : e.toGit.diff t u = decode (e.diff t u) := rfl

/-! ## What is compared -/

theorem mem_names {path : String} : path ∈ e.names t u ↔
    t.blob path ≠ u.blob path ∧ ∀ new, (path, new) ∉ e.renames t u := by
  unfold names
  rw [List.mem_insertionSort, List.mem_filter, Tree.mem_changed, decide_eq_true_eq]
  simp

/-- A pair has the versions of two paths that changed. -/
theorem pairOf_spec {path : String} (hpath : path ∈ e.names t u) :
    (e.pairOf t u path).newPath = path ∧ (e.pairOf t u path).new = u.blob path ∧
      (e.pairOf t u path).old = t.blob (e.pairOf t u path).oldPath ∧
      t.blob (e.pairOf t u path).oldPath ≠ u.blob (e.pairOf t u path).oldPath := by
  unfold pairOf
  split
  · rename_i old new hfind
    obtain rfl : new = path := by simpa using List.find?_some hfind
    obtain ⟨hold, hgone, -⟩ := e.renames_spec (List.mem_of_find?_eq_some hfind)
    refine ⟨rfl, rfl, rfl, ?_⟩
    rwa [hgone]
  · exact ⟨rfl, rfl, rfl, (mem_names.mp hpath).1⟩

/-- A version that is compared is one of a path that changed. -/
theorem mem_compared {p : FilePair} (hp : p ∈ e.compared t u) :
    p.newPath ∈ e.names t u ∧ (∀ b ∈ p.new, u.blob p.newPath = some b) ∧
      ∀ b ∈ p.old, t.blob p.oldPath = some b ∧ t.blob p.oldPath ≠ u.blob p.oldPath := by
  obtain ⟨path, hpath, hpart⟩ := List.mem_flatMap.mp hp
  obtain ⟨hnewPath, hnew, hold, hchanged⟩ := pairOf_spec hpath
  obtain ⟨hpartOld, hpartNew, hold', hnew'⟩ := FilePair.parts_cases hpart
  refine ⟨hpartNew.trans hnewPath ▸ hpath, fun b hb => ?_, fun b hb => ?_⟩
  · rcases hnew' with hnone | hsame
    · exact absurd (hnone ▸ hb) (by simp)
    · rw [hpartNew, hnewPath, ← hnew, ← hsame]
      exact hb
  · rcases hold' with hnone | hsame
    · exact absurd (hnone ▸ hb) (by simp)
    · rw [hpartOld, ← hold, ← hsame]
      exact ⟨hb, by rw [hsame, hold]; exact hchanged⟩

/-! ## What is printed -/

theorem isAscii_of_isPrintable {text : String} (htext : isPrintable text) : IsAscii text.toList :=
  fun c hc => (isPrintable_iff.mp htext c hc).2.trans (by decide)

theorem isAscii_of_isFixed {text : String} (htext : IsFixed text) : IsAscii text.toList := by
  intro c hc
  rcases htext.plain c hc with rfl | h
  · decide
  · exact h.2.trans (by decide)

theorem not_mem_map_ascii {cs : List Char} (hcs : IsAscii cs) {d : Char} (hd : d.toNat < 128)
    (hmem : d ∉ cs) : ascii d ∉ cs.map ascii := by
  rintro h
  obtain ⟨c, hc, heq⟩ := List.mem_map.mp h
  exact hmem (ascii_inj (hcs c hc) hd heq ▸ hc)

theorem feed_of_isPrintable {text : String} (htext : isPrintable text) :
    ascii '\n' ∉ printText ascii text := by
  refine not_mem_map_ascii (isAscii_of_isPrintable htext) (by decide) fun hmem => ?_
  exact absurd (isPrintable_iff.mp htext _ hmem).1 (by decide)

theorem feed_of_isFixed {text : String} (htext : IsFixed text) :
    ascii '\n' ∉ printText ascii text := by
  refine not_mem_map_ascii (isAscii_of_isFixed htext) (by decide) fun hmem => ?_
  rcases htext.plain _ hmem with h | h <;> exact absurd h (by decide)

theorem body_text {p : FilePair} {hunks : List (Hunk UInt8)} (h : e.body p = .text hunks) :
    hunks = e.hunks (contentOf p.old) (contentOf p.new) := by
  unfold body at h
  split at h
  · exact absurd h (by simp)
  · split at h
    · exact absurd h (by simp)
    · exact (Body.text.inj h).symm

/-- A line of a file that is shown is a line of a version. -/
theorem mem_split_of_shown {p : FilePair} {hunks : List (Hunk UInt8)} (hbody : e.body p = .text hunks)
    {h : Hunk UInt8} (hh : h ∈ hunks) {l : HunkLine UInt8} (hl : l ∈ h.lines) :
    l.content ∈ TextLines.split (ascii '\n') (contentOf p.old) ∨
      l.content ∈ TextLines.split (ascii '\n') (contentOf p.new) := by
  rw [body_text hbody] at hh
  exact e.hunks_lines hh hl

/-- No line that is printed has a line feed of its own. -/
theorem feed_of_mem_printed : ∀ line ∈ e.printed t u, ascii '\n' ∉ line := by
  intro line hline
  obtain ⟨p, -, hprint⟩ := List.mem_flatMap.mp hline
  rcases mem_print ascii hprint with ⟨text, htext, rfl⟩ | ⟨-, rfl⟩ | ⟨hunks, hbody, h, hh, hshown⟩
  · exact feed_of_isFixed htext
  · exact feed_of_isPrintable (isPrintable_binaryNotice _)
  · rcases hshown with rfl | ⟨l, hl, rfl⟩
    · obtain ⟨range, hrange, -, heq⟩ := header_eq ascii h
      have hblank : ascii '\n' ≠ ascii ' ' := by decide
      have hheading := e.hunks_heading (body_text hbody ▸ hh)
      rw [heq, List.mem_append, not_or]
      refine ⟨feed_of_isPrintable hrange, ?_⟩
      split
      · exact List.not_mem_nil
      · exact not_or.mpr ⟨hblank, hheading⟩ ∘ List.mem_cons.mp
    · have hmark : ascii '\n' ≠ ascii l.mark.char := by
        cases l.mark <;> decide
      refine not_or.mpr ⟨hmark, ?_⟩ ∘ List.mem_cons.mp
      rcases mem_split_of_shown hbody hh hl with hmem | hmem <;>
        exact TextLines.not_mem_of_mem_split hmem

/-- **A line looks like a notice of binary files only if it is one.** -/
theorem notice_iff : (∃ line ∈ e.printed t u, "Binary files ".toList.map ascii <+: line) ↔
    ∃ p ∈ e.compared t u, e.body p = .binary := by
  constructor
  · rintro ⟨line, hline, rest, rfl⟩
    have hstart : ("Binary files ".toList.map ascii ++ rest).head? = some (ascii 'B') := rfl
    obtain ⟨p, hp, hprint⟩ := List.mem_flatMap.mp hline
    rcases mem_print ascii hprint with ⟨text, htext, heq⟩ | ⟨hbody, -⟩ | ⟨hunks, -, h, -, heq⟩
    · rw [heq, printText, List.head?_map, Option.map_eq_some_iff] at hstart
      obtain ⟨c, hc, hsame⟩ := hstart
      have hascii := isAscii_of_isFixed htext c (List.mem_of_mem_head? hc)
      rw [ascii_inj hascii (by decide) hsame] at hc
      exact absurd hc htext.start
    · exact ⟨p, hp, hbody⟩
    · rcases heq with heq | ⟨l, -, heq⟩
      · obtain ⟨range, -, hat, hheader⟩ := header_eq ascii h
        rw [heq, hheader, printText, List.head?_append, List.head?_map, hat, Option.map_some,
          Option.some_or] at hstart
        exact absurd hstart (by decide)
      · rw [heq] at hstart
        cases hmark : l.mark <;> rw [hmark] at hstart <;> exact absurd hstart (by simp; decide)
  · rintro ⟨p, hp, hbody⟩
    refine ⟨_, List.mem_flatMap.mpr ⟨p, hp, notice_mem_print ascii hbody⟩, ?_⟩
    simp only [binaryNotice, printText, String.toList_append, List.map_append, List.append_assoc]
    exact List.prefix_append _ _

theorem isUtf8_header_iff {h : Hunk UInt8} : IsUtf8 (h.header ascii) ↔ IsUtf8 h.heading := by
  obtain ⟨range, hrange, -, heq⟩ := header_eq ascii h
  rw [heq, printText, isUtf8_ascii_append (isAscii_of_isPrintable hrange)]
  split
  · rename_i hempty
    rw [List.isEmpty_iff.mp hempty]
  · have hblank : IsAscii [' '] := by decide
    exact isUtf8_ascii_append hblank

theorem isUtf8_line_iff {l : HunkLine UInt8} :
    IsUtf8 (ascii l.mark.char :: l.content) ↔ IsUtf8 l.content := by
  have hmark : IsAscii [l.mark.char] := by
    cases l.mark <;> decide
  exact isUtf8_ascii_append hmark

/-- **What is printed is text if what is shown of the files is.** -/
theorem isUtf8_printed_iff : (∀ line ∈ e.printed t u, IsUtf8 line) ↔
    ∀ p ∈ e.compared t u, ∀ hunks, e.body p = .text hunks → ∀ h ∈ hunks,
      IsUtf8 h.heading ∧ ∀ l ∈ h.lines, IsUtf8 l.content := by
  constructor
  · intro hall p hp hunks hbody h hh
    have hprinted {line : List UInt8} (hline : line ∈ h.print ascii) : IsUtf8 line :=
      hall line (List.mem_flatMap.mpr ⟨p, hp, hunk_mem_print ascii hbody hh hline⟩)
    refine ⟨isUtf8_header_iff.mp (hprinted (header_mem_print ascii h)), fun l hl => ?_⟩
    exact isUtf8_line_iff.mp (hprinted (line_mem_print ascii hl))
  · intro hshown line hline
    obtain ⟨p, hp, hprint⟩ := List.mem_flatMap.mp hline
    rcases mem_print ascii hprint with ⟨text, htext, rfl⟩ | ⟨-, rfl⟩ | ⟨hunks, hbody, h, hh, heq⟩
    · exact isUtf8_ascii (isAscii_of_isFixed htext)
    · exact isUtf8_ascii (isAscii_of_isPrintable (isPrintable_binaryNotice _))
    · obtain ⟨hheading, hlines⟩ := hshown p hp hunks hbody h hh
      rcases heq with rfl | ⟨l, hl, rfl⟩
      · exact isUtf8_header_iff.mpr hheading
      · exact isUtf8_line_iff.mpr (hlines l hl)

/-- The first line of a diff is not such a notice. -/
theorem notice_tail_iff :
    (∃ line ∈ (e.printed t u).tail, "Binary files ".toList.map ascii <+: line) ↔
      ∃ p ∈ e.compared t u, e.body p = .binary := by
  rw [← notice_iff]
  refine ⟨fun ⟨line, hline, h⟩ => ⟨line, List.mem_of_mem_tail hline, h⟩, ?_⟩
  rintro ⟨line, hline, h⟩
  cases hpairs : e.compared t u with
  | nil =>
    rw [printed, hpairs] at hline
    exact absurd hline List.not_mem_nil
  | cons p pairs =>
    rw [printed, hpairs, List.flatMap_cons] at hline ⊢
    rcases List.mem_cons.mp hline with rfl | hline
    · obtain ⟨rest, hrest⟩ := h
      have hstart := congrArg List.head? hrest
      simp [printText] at hstart
      exact absurd hstart (by decide)
    · exact ⟨line, hline, h⟩

/-! ## Submodules -/

theorem isPrintable_hexText (bytes : List UInt8) : isPrintable (hexText bytes) := by
  have hdigit : ∀ n < 16, 32 ≤ (Nat.digitChar n).toNat ∧ (Nat.digitChar n).toNat < 127 := by decide
  rw [isPrintable_iff, hexText, String.toList_ofList]
  intro c hc
  obtain ⟨b, -, hc⟩ := List.mem_flatMap.mp hc
  have hb : b.toNat < 256 := b.toNat_lt
  rcases List.mem_pair.mp hc with rfl | rfl
  · exact hdigit _ (by omega)
  · exact hdigit _ (by omega)

theorem isPrintable_commitText (bytes : List UInt8) : isPrintable (commitText bytes) := by
  have hdirty : isPrintable "-dirty" := by decide
  unfold commitText
  split
  · simp [isPrintable_hexText, hdirty]
  · simp [isPrintable_hexText]

/-- What stands for a submodule is one line. -/
theorem split_submodule {b : Blob} (hmode : b.mode = .submodule) :
    TextLines.split (ascii '\n') b.shown =
      [printText ascii ("Subproject commit " ++ commitText b.content)] := by
  have hprintable : isPrintable ("Subproject commit " ++ commitText b.content) := by
    have hword : isPrintable "Subproject commit " := by decide
    simp [hword, isPrintable_commitText]
  rw [Blob.shown, if_pos hmode, TextLines.split_line (feed_of_isPrintable hprintable)]

theorem submodule_iff_of_sameType {m n : FileMode} (h : m.sameType n) :
    m = .submodule ↔ n = .submodule := by
  cases m <;> cases n <;> revert h <;> decide

/-- **A submodule whose commit changed is shown.** -/
theorem exists_submodule_line {p : FilePair} (hp : p ∈ e.compared t u)
    (hne : contentOf p.old ≠ contentOf p.new) {b : Blob} (hb : b ∈ p.old ∨ b ∈ p.new)
    (hmode : b.mode = .submodule) :
    ∃ line ∈ e.printed t u, "Subproject commit".toList.map ascii <:+: line := by
  obtain ⟨path, -, hpart⟩ := List.mem_flatMap.mp hp
  have hversions : ∀ v, v = p.old ∨ v = p.new → ∀ b' ∈ v, b'.mode = .submodule := by
    have hsame {old new : Blob} (hold : p.old = some old) (hnew : p.new = some new) :=
      submodule_iff_of_sameType (FilePair.sameType_of_part hpart hold hnew)
    rintro v (rfl | rfl) b' hb'
    · rcases hb with hb | hb
      · rwa [Option.some.inj (hb'.symm.trans hb)]
      · exact (hsame hb' hb).mpr hmode
    · rcases hb with hb | hb
      · exact (hsame hb hb').mp hmode
      · rwa [Option.some.inj (hb'.symm.trans hb)]
  have hlines : ∀ v, v = p.old ∨ v = p.new → ∀ line ∈ TextLines.split (ascii '\n') (contentOf v),
      "Subproject commit".toList.map ascii <:+: line := by
    intro v hv line hline
    cases hversion : v with
    | none =>
      rw [hversion] at hline
      exact absurd hline List.not_mem_nil
    | some b' =>
      rw [hversion, contentOf, Option.map_some, Option.getD_some,
        split_submodule (hversions v hv b' hversion)] at hline
      rw [List.mem_singleton.mp hline, printText, String.toList_append, List.map_append]
      exact (by decide : "Subproject commit".toList.map ascii <:+:
        "Subproject commit ".toList.map ascii).trans (List.prefix_append _ _).isInfix
  have hbinary : ∀ path v, v = p.old ∨ v = p.new → e.isBinary path v = false := by
    intro path v hv
    cases v with
    | none => rfl
    | some b' =>
      rw [isBinary, hversions _ hv b' rfl]
      rfl
  have hbody : e.body p = .text (e.hunks (contentOf p.old) (contentOf p.new)) := by
    rw [body, if_neg hne, hbinary _ _ (.inl rfl), hbinary _ _ (.inr rfl)]
    rfl
  obtain ⟨h, hh, hshow⟩ := e.hunks_show hne
  obtain ⟨l, hl⟩ := List.exists_mem_of_ne_nil _ hshow
  refine ⟨ascii l.mark.char :: l.content, List.mem_flatMap.mpr
    ⟨p, hp, hunk_mem_print ascii hbody hh (line_mem_print ascii hl)⟩, ?_⟩
  have hcontent : "Subproject commit".toList.map ascii <:+: l.content := by
    rcases e.hunks_lines hh hl with hmem | hmem
    · exact hlines _ (.inl rfl) _ hmem
    · exact hlines _ (.inr rfl) _ hmem
  exact hcontent.trans (List.suffix_cons _ _).isInfix

end DiffEngine

end Runtime

end AgentReliability
