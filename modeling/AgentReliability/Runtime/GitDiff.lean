import AgentReliability.Runtime.Checkout
/-!
# How git prints a diff

A diff is printed file by file: a header with the paths, the modes and the
names of the contents, then what is shown of the contents. Their lines stand
behind a mark that tells whether they stay, are added or are deleted. The
header is ASCII, whatever the paths; the lines of a file are printed as they
are.

The symbols are bytes where git prints, and characters once they are
decoded.
-/

namespace AgentReliability

namespace Runtime

namespace GitDiff

inductive LineMark where
  | context | added | deleted
  deriving DecidableEq, Repr

def LineMark.char : LineMark → Char
  | context => ' '
  | added => '+'
  | deleted => '-'

/-- A line of a hunk, without its line feed. -/
structure HunkLine (α : Type) where
  mark : LineMark
  content : List α
  /-- It ends its file without a line feed. -/
  unterminated : Bool := false
  deriving DecidableEq, Repr

structure Hunk (α : Type) where
  oldStart : ℕ
  newStart : ℕ
  /-- The line the hunk is found behind, if git knows one. -/
  heading : List α := []
  lines : List (HunkLine α)
  deriving DecidableEq, Repr

/-- The name of an object, as far as it is printed. -/
abbrev ObjectName := List (Fin 16)

/-- What is shown of the contents of a file. -/
inductive Body (α : Type) where
  /-- Nothing, where they agree. -/
  | same
  | binary
  | text (hunks : List (Hunk α))
  deriving DecidableEq, Repr

/-- The diff of a file. There is no mode on a side that has no file. -/
structure FileDiff (α : Type) where
  oldPath : String
  newPath : String
  oldMode : Option FileMode
  newMode : Option FileMode
  /-- How much of a renamed file is the same. -/
  similarity : Option ℕ := none
  /-- The file is renamed once more. -/
  copied : Bool := false
  index : Option (ObjectName × ObjectName)
  body : Body α
  deriving DecidableEq, Repr

section Header

def modeText : FileMode → String
  | .regular => "100644"
  | .executable => "100755"
  | .symlink => "120000"
  | .submodule => "160000"

def objectText (name : ObjectName) : String := .ofList (name.map fun d : Fin 16 => Nat.digitChar d.val)

/-- The name that is printed as a text. -/
def hexName (text : String) : ObjectName :=
  text.toList.map fun c => Fin.ofNat 16 (if c.isDigit then c.toNat - 48 else c.toNat - 87)

example : objectText (hexName "e69de29") = "e69de29" := by decide

def rangeText (start count : ℕ) : String :=
  if count = 1 then toString start else toString start ++ "," ++ toString count

variable {α : Type} (d : FileDiff α)

def modeLines : List String :=
  match d.oldMode, d.newMode with
  | none, some new => ["new file mode " ++ modeText new]
  | some old, none => ["deleted file mode " ++ modeText old]
  | some old, some new =>
    if old = new then [] else ["old mode " ++ modeText old, "new mode " ++ modeText new]
  | none, none => []

def renameLines : List String :=
  match d.similarity with
  | some percent =>
    let verb := if d.copied then "copy " else "rename "
    ["similarity index " ++ toString percent ++ "%", verb ++ "from " ++ quotePath d.oldPath,
      verb ++ "to " ++ quotePath d.newPath]
  | none => []

def indexLines : List String :=
  match d.index with
  | some (old, new) =>
    ["index " ++ objectText old ++ ".." ++ objectText new ++
      (match d.oldMode, d.newMode with
        | some oldMode, some newMode => if oldMode = newMode then " " ++ modeText newMode else ""
        | _, _ => "")]
  | none => []

def headerLines : List String :=
  ["diff --git " ++ quotePath ("a/" ++ d.oldPath) ++ " " ++ quotePath ("b/" ++ d.newPath)] ++
    modeLines d ++ renameLines d ++ indexLines d

/-- A side of a diff. -/
def label (side path : String) (mode : Option FileMode) : String :=
  if mode = none then "/dev/null" else quotePath (side ++ path)

def oldLabel : String := label "a/" d.oldPath d.oldMode

def newLabel : String := label "b/" d.newPath d.newMode

/-- A label with a blank is told from what follows by a tab. -/
def tabbed (text : String) : String := if ' ' ∈ text.toList then text ++ "\t" else text

end Header

section Print

variable {α : Type} (ascii : Char → α)

/-- A text of the header. -/
def printText (text : String) : List α := text.toList.map ascii

def Hunk.header (h : Hunk α) : List α :=
  printText ascii ("@@ -" ++ rangeText h.oldStart (h.lines.countP (·.mark ≠ .added)) ++ " +" ++
    rangeText h.newStart (h.lines.countP (·.mark ≠ .deleted)) ++ " @@") ++
      if h.heading.isEmpty then [] else ascii ' ' :: h.heading

def HunkLine.print (l : HunkLine α) : List (List α) :=
  (ascii l.mark.char :: l.content) ::
    if l.unterminated then [printText ascii "\\ No newline at end of file"] else []

def Hunk.print (h : Hunk α) : List (List α) :=
  h.header ascii :: h.lines.flatMap fun l => l.print ascii

/-- What follows the header of a file. -/
def bodyLines (d : FileDiff α) : List (List α) :=
  match d.body with
  | .same => []
  | .binary =>
    [printText ascii ("Binary files " ++ oldLabel d ++ " and " ++ newLabel d ++ " differ")]
  | .text [] => []
  | .text hunks => printText ascii ("--- " ++ tabbed (oldLabel d)) ::
      printText ascii ("+++ " ++ tabbed (newLabel d)) :: hunks.flatMap fun h => h.print ascii

/-- The lines of a file's diff. -/
def FileDiff.print (d : FileDiff α) : List (List α) :=
  (headerLines d).map (printText ascii) ++ bodyLines ascii d

/-- A diff, each line with its line feed. -/
def printDiff (diffs : List (FileDiff α)) : List α :=
  (diffs.flatMap fun d => d.print ascii).flatMap fun line => line ++ [ascii '\n']

end Print

/-! ## The header is printable -/

/-- The text is printable ASCII. -/
def isPrintable (text : String) : Bool := text.toList.all fun c => 32 ≤ c.toNat ∧ c.toNat < 127

theorem isPrintable_iff {text : String} :
    isPrintable text ↔ ∀ c ∈ text.toList, 32 ≤ c.toNat ∧ c.toNat < 127 := by
  simp [isPrintable]

@[simp] theorem isPrintable_append (s t : String) :
    isPrintable (s ++ t) = (isPrintable s && isPrintable t) := by
  rw [isPrintable, String.toList_append, List.all_append]
  rfl

@[simp] theorem isPrintable_quotePath (path : String) : isPrintable (quotePath path) = true :=
  isPrintable_iff.mpr fun _ hc => printable_quotePath hc

@[simp] theorem isPrintable_modeText (mode : FileMode) : isPrintable (modeText mode) = true := by
  cases mode <;> decide

@[simp] theorem isPrintable_repr (n : ℕ) : isPrintable n.repr = true := by
  rw [isPrintable_iff]
  intro c hc
  have hdigit : c.isDigit = true :=
    Nat.isDigit_of_mem_toDigits (by decide) (by decide) (Nat.toList_repr ▸ hc)
  simp only [Char.isDigit, Bool.and_eq_true, decide_eq_true_eq, UInt32.le_iff_toNat_le] at hdigit
  have hlow : 48 ≤ c.toNat := hdigit.1
  have hhigh : c.toNat ≤ 57 := hdigit.2
  omega

@[simp] theorem isPrintable_objectText (name : ObjectName) :
    isPrintable (objectText name) = true := by
  rw [isPrintable_iff, objectText, String.toList_ofList]
  intro c hc
  obtain ⟨d, -, rfl⟩ := List.mem_map.mp hc
  have hall : ∀ d : Fin 16, 32 ≤ (Nat.digitChar d).toNat ∧ (Nat.digitChar d).toNat < 127 := by
    decide
  exact hall d

@[simp] theorem isPrintable_label (side path : String) (mode : Option FileMode) :
    isPrintable (label side path mode) = true := by
  unfold label
  split
  · decide
  · exact isPrintable_quotePath _

@[simp] theorem isPrintable_rangeText (start count : ℕ) :
    isPrintable (rangeText start count) = true := by
  have hcomma : isPrintable "," = true := by decide
  unfold rangeText
  split <;> simp [hcomma]

theorem isPrintable_modeLines {α : Type} {d : FileDiff α} {line : String}
    (hline : line ∈ modeLines d) : isPrintable line := by
  have hnew : isPrintable "new file mode " = true := by decide
  have hdeleted : isPrintable "deleted file mode " = true := by decide
  have hmodes : isPrintable "old mode " = true ∧ isPrintable "new mode " = true := by decide
  unfold modeLines at hline
  split at hline
  · rw [List.mem_singleton.mp hline]
    simp [hnew]
  · rw [List.mem_singleton.mp hline]
    simp [hdeleted]
  · split at hline
    · exact absurd hline List.not_mem_nil
    · rcases List.mem_pair.mp hline with rfl | rfl <;> simp [hmodes]
  · exact absurd hline List.not_mem_nil

theorem isPrintable_renameLines {α : Type} {d : FileDiff α} {line : String}
    (hline : line ∈ renameLines d) : isPrintable line := by
  have hsimilarity : isPrintable "similarity index " = true ∧ isPrintable "%" = true := by decide
  have hsides : isPrintable "from " = true ∧ isPrintable "to " = true := by decide
  have hverb : isPrintable (if d.copied then "copy " else "rename ") = true := by
    split <;> decide
  unfold renameLines at hline
  split at hline
  · simp only [List.mem_cons, List.not_mem_nil, or_false] at hline
    rcases hline with rfl | rfl | rfl
    · simp [hsimilarity]
    · simp [hverb, hsides]
    · simp [hverb, hsides]
  · exact absurd hline List.not_mem_nil

theorem isPrintable_indexLines {α : Type} {d : FileDiff α} {line : String}
    (hline : line ∈ indexLines d) : isPrintable line := by
  have hindex : isPrintable "index " = true ∧ isPrintable ".." = true := by decide
  have hmode : isPrintable " " = true ∧ isPrintable "" = true := by decide
  unfold indexLines at hline
  split at hline
  · rw [List.mem_singleton.mp hline]
    simp only [isPrintable_append, isPrintable_objectText, hindex, Bool.and_true, Bool.true_and]
    split
    · split <;> simp [hmode]
    · exact hmode.2
  · exact absurd hline List.not_mem_nil

/-- **Every line of a header is printable.** -/
theorem isPrintable_headerLines {α : Type} {d : FileDiff α} {line : String}
    (hline : line ∈ headerLines d) : isPrintable line := by
  have hgit : isPrintable "diff --git " = true ∧ isPrintable " " = true := by decide
  rcases List.mem_append.mp hline with hline | hline
  · rcases List.mem_append.mp hline with hline | hline
    · rcases List.mem_append.mp hline with hline | hline
      · rw [List.mem_singleton.mp hline]
        simp [hgit]
      · exact isPrintable_modeLines hline
    · exact isPrintable_renameLines hline
  · exact isPrintable_indexLines hline

/-! ## The lines that are printed -/

/-- A line git writes itself: ASCII, and no notice of binary files. -/
structure IsFixed (text : String) : Prop where
  plain : ∀ c ∈ text.toList, c = '\t' ∨ 32 ≤ c.toNat ∧ c.toNat < 127
  start : text.toList.head? ≠ some 'B'

theorem isFixed_of_isPrintable {text : String} (htext : isPrintable text)
    (hstart : text.toList.head? ≠ some 'B') : IsFixed text :=
  ⟨fun c hc => .inr (isPrintable_iff.mp htext c hc), hstart⟩

section

variable {α : Type} {d : FileDiff α}

theorem head_headerLines {line : String} (hline : line ∈ headerLines d) :
    line.toList.head? ≠ some 'B' := by
  rcases List.mem_append.mp hline with hline | hline
  · rcases List.mem_append.mp hline with hline | hline
    · rcases List.mem_append.mp hline with hline | hline
      · simp [List.mem_singleton.mp hline]
      · unfold modeLines at hline
        split at hline
        · simp [List.mem_singleton.mp hline]
        · simp [List.mem_singleton.mp hline]
        · split at hline
          · exact absurd hline List.not_mem_nil
          · rcases List.mem_pair.mp hline with rfl | rfl <;> simp
        · exact absurd hline List.not_mem_nil
    · unfold renameLines at hline
      split at hline
      · simp only [List.mem_cons, List.not_mem_nil, or_false] at hline
        rcases hline with rfl | rfl | rfl
        · simp
        · split <;> simp
        · split <;> simp
      · exact absurd hline List.not_mem_nil
  · unfold indexLines at hline
    split at hline
    · simp [List.mem_singleton.mp hline]
    · exact absurd hline List.not_mem_nil

theorem isFixed_headerLines {line : String} (hline : line ∈ headerLines d) : IsFixed line :=
  isFixed_of_isPrintable (isPrintable_headerLines hline) (head_headerLines hline)

theorem isFixed_tabbed {start side path : String} {mode : Option FileMode}
    (hstart : isPrintable start) (hne : ∃ c cs, start.toList = c :: cs ∧ c ≠ 'B') :
    IsFixed (start ++ tabbed (label side path mode)) := by
  obtain ⟨c, cs, hcs, hc⟩ := hne
  constructor
  · intro d hd
    rw [String.toList_append] at hd
    rcases List.mem_append.mp hd with hd | hd
    · exact .inr (isPrintable_iff.mp hstart d hd)
    · unfold tabbed at hd
      have hlabel := isPrintable_iff.mp (isPrintable_label side path mode)
      split at hd
      · rw [String.toList_append] at hd
        rcases List.mem_append.mp hd with hd | hd
        · exact .inr (hlabel d hd)
        · exact .inl (by simpa using hd)
      · exact .inr (hlabel d hd)
  · simp [hcs, hc]

variable (ascii : Char → α)

/-- What stands before the heading of a hunk. -/
theorem header_eq (h : Hunk α) : ∃ range : String, isPrintable range ∧
    range.toList.head? = some '@' ∧ h.header ascii =
      printText ascii range ++ if h.heading.isEmpty then [] else ascii ' ' :: h.heading := by
  refine ⟨_, ?_, ?_, rfl⟩
  · have hwords : isPrintable "@@ -" ∧ isPrintable " +" ∧ isPrintable " @@" := by decide
    simp [hwords]
  · simp

/-- The notice that stands for the contents of binary files. -/
def binaryNotice (d : FileDiff α) : String :=
  "Binary files " ++ oldLabel d ++ " and " ++ newLabel d ++ " differ"

theorem isPrintable_binaryNotice (d : FileDiff α) : isPrintable (binaryNotice d) := by
  have hwords : isPrintable "Binary files " ∧ isPrintable " and " ∧ isPrintable " differ" := by
    decide
  show isPrintable ("Binary files " ++ oldLabel d ++ " and " ++ newLabel d ++ " differ")
  simp [oldLabel, newLabel, hwords]

/-- **What a line is that is printed.** -/
theorem mem_print {line : List α} (hline : line ∈ d.print ascii) :
    (∃ text, IsFixed text ∧ line = printText ascii text) ∨
      (d.body = .binary ∧ line = printText ascii (binaryNotice d)) ∨
      ∃ hunks, d.body = .text hunks ∧ ∃ h ∈ hunks,
        line = h.header ascii ∨ ∃ l ∈ h.lines, line = ascii l.mark.char :: l.content := by
  rcases List.mem_append.mp hline with hheader | hbody
  · obtain ⟨text, htext, rfl⟩ := List.mem_map.mp hheader
    exact .inl ⟨text, isFixed_headerLines htext, rfl⟩
  · unfold bodyLines at hbody
    split at hbody
    · exact absurd hbody List.not_mem_nil
    · rename_i hbinary
      exact .inr (.inl ⟨hbinary, List.mem_singleton.mp hbody⟩)
    · exact absurd hbody List.not_mem_nil
    · rename_i hunks hne htext
      rcases List.mem_cons.mp hbody with rfl | hbody
      · exact .inl ⟨_, isFixed_tabbed (by decide) ⟨'-', _, by rfl, by decide⟩, rfl⟩
      · rcases List.mem_cons.mp hbody with rfl | hbody
        · exact .inl ⟨_, isFixed_tabbed (by decide) ⟨'+', _, by rfl, by decide⟩, rfl⟩
        · obtain ⟨h, hh, hprint⟩ := List.mem_flatMap.mp hbody
          rcases List.mem_cons.mp hprint with hheader | hprint
          · exact .inr (.inr ⟨hunks, htext, h, hh, .inl hheader⟩)
          · obtain ⟨l, hl, hprint⟩ := List.mem_flatMap.mp hprint
            rcases List.mem_cons.mp hprint with hcontent | hend
            · exact .inr (.inr ⟨hunks, htext, h, hh, .inr ⟨l, hl, hcontent⟩⟩)
            · split at hend
              · refine .inl ⟨"\\ No newline at end of file", ?_, List.mem_singleton.mp hend⟩
                exact isFixed_of_isPrintable (by decide) (by decide)
              · exact absurd hend List.not_mem_nil

theorem notice_mem_print (hbody : d.body = .binary) :
    printText ascii (binaryNotice d) ∈ d.print ascii := by
  refine List.mem_append_right _ ?_
  rw [bodyLines, hbody]
  exact List.mem_singleton_self _

theorem hunk_mem_print {hunks : List (Hunk α)} (hbody : d.body = .text hunks) {h : Hunk α}
    (hh : h ∈ hunks) {line : List α} (hline : line ∈ h.print ascii) : line ∈ d.print ascii := by
  refine List.mem_append_right _ ?_
  unfold bodyLines
  cases hunks with
  | nil => exact absurd hh List.not_mem_nil
  | cons first hunks =>
    rw [hbody]
    exact List.mem_cons_of_mem _ (List.mem_cons_of_mem _ (List.mem_flatMap.mpr ⟨h, hh, hline⟩))

theorem header_mem_print (h : Hunk α) : h.header ascii ∈ h.print ascii := List.mem_cons_self

theorem line_mem_print {h : Hunk α} {l : HunkLine α} (hl : l ∈ h.lines) :
    ascii l.mark.char :: l.content ∈ h.print ascii :=
  List.mem_cons_of_mem _ (List.mem_flatMap.mpr ⟨l, hl, List.mem_cons_self⟩)

end

end GitDiff

end Runtime

end AgentReliability
