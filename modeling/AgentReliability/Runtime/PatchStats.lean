import AgentReliability.Common.PythonWords
import AgentReliability.Runtime.GitDiff
/-!
# What a patch says of its files

Once a patch is applied, `apply_patch` emits an event for each file of it:
its path, what happened to it, and how many lines were added and deleted.
`parse_patch_stats` takes these from the lines of the patch, each by how it
starts, wherever it stands.

A list of changes is printed as git does. What is read is right if the paths
are printed as they are, each change shows a line, and no line reads like a
part of a header; besides what stands behind a line boundary that is not a
line feed, that is exactly when.
-/

namespace AgentReliability

namespace Runtime

namespace PatchStats

open PythonText GitDiff

inductive ChangeType where
  | modify | create | delete
  deriving DecidableEq, Repr

/-- The payload of a FILE_CHANGE event. -/
@[ext] structure FileChange where
  path : String := ""
  changeType : ChangeType := .modify
  additions : ℕ := 0
  deletions : ℕ := 0
  deriving DecidableEq, Repr

/-- `line[6:].strip()`. -/
def pathOf (line : String) : String := strip (.ofList (line.toList.drop 6))

/-- A line of a patch, behind the first of a file. -/
def FileChange.read (current : FileChange) (line : String) : FileChange :=
  if startswith "+++ b/" line then { current with path := pathOf line }
  else if startswith "new file mode" line then { current with changeType := .create }
  else if startswith "deleted file mode" line then { current with changeType := .delete }
  else if startswith "--- a/" line ∧ current.changeType = .delete then
    { current with path := pathOf line }
  else if startswith "+" line ∧ ¬ startswith "+++" line then
    { current with additions := current.additions + 1 }
  else if startswith "-" line ∧ ¬ startswith "---" line then
    { current with deletions := current.deletions + 1 }
  else current

/-- A line of a patch: the files so far, and the one that is read. -/
def readLine : List FileChange × Option FileChange → String → List FileChange × Option FileChange
  | (changes, current), line =>
    if startswith "diff --git" line then (changes ++ current.toList, some {})
    else (changes, current.map fun current => current.read line)

def parsePatchStats (patch : String) : List FileChange :=
  let (changes, current) := (splitlines patch).foldl readLine ([], none)
  (changes ++ current.toList).filter fun change => change.path ≠ ""

/-! ## Changes of text files -/

/-- The change of a text file, with the hunks that are shown of it. -/
structure TextChange where
  path : String
  kind : ChangeType
  oldExecutable : Bool := false
  newExecutable : Bool := false
  index : Option (ObjectName × ObjectName)
  hunks : List (Hunk Char)
  path_ne : path ≠ ""

def textMode (executable : Bool) : FileMode := if executable then .executable else .regular

namespace TextChange

variable (c : TextChange)

def toDiff : FileDiff Char where
  oldPath := c.path
  newPath := c.path
  oldMode := if c.kind = .create then none else some (textMode c.oldExecutable)
  newMode := if c.kind = .delete then none else some (textMode c.newExecutable)
  index := c.index
  body := .text c.hunks

/-- The lines of all hunks. -/
def lines : List (HunkLine Char) := c.hunks.flatMap fun h => h.lines

/-- What an event should say of the change. -/
def stats : FileChange where
  path := c.path
  changeType := c.kind
  additions := c.lines.countP fun l => l.mark = .added
  deletions := c.lines.countP fun l => l.mark = .deleted

end TextChange

/-- The patch git prints for the changes. -/
def unifiedDiff (changes : List TextChange) : String :=
  .ofList (printDiff id (changes.map fun c => c.toDiff))

/-- **An entry for each file, in order,** with its path, the kind of its
change and the number of its lines. -/
def StatsRight (changes : List TextChange) : Prop :=
  parsePatchStats (unifiedDiff changes) = changes.map fun c => c.stats

instance (changes : List TextChange) : Decidable (StatsRight changes) :=
  inferInstanceAs (Decidable (_ = _))

/-! ## Lines that are read -/

/-- A line the parser takes for a part of a diff, in a change of the kind. -/
def isMark (kind : ChangeType) (line : String) : Bool :=
  startswith "diff --git" line || startswith "+++ b/" line || startswith "new file mode" line ||
    startswith "deleted file mode" line || (startswith "--- a/" line && kind = .delete) ||
    (startswith "+" line && ! startswith "+++" line) ||
    (startswith "-" line && ! startswith "---" line)

theorem FileChange.read_of_not_isMark {current : FileChange} {line : String}
    (h : isMark current.changeType line = false) : current.read line = current := by
  simp only [isMark, Bool.or_eq_false_iff] at h
  obtain ⟨⟨⟨⟨⟨⟨-, hnew⟩, hcreate⟩, hdelete⟩, hold⟩, hplus⟩, hminus⟩ := h
  unfold FileChange.read
  rw [hnew, hcreate, hdelete, if_neg (by simp), if_neg (by simp), if_neg (by simp),
    if_neg (by simpa using hold), if_neg (by simpa using hplus), if_neg (by simpa using hminus)]

namespace TextChange

/-- The texts of a change that are printed as they are. -/
def texts (c : TextChange) : List (List Char) :=
  c.hunks.flatMap fun h => h.heading :: h.lines.map fun l => l.content

/-- Nothing behind a boundary within a line reads like a part of a diff. -/
def Tame (c : TextChange) : Prop :=
  ∀ piece ∈ c.texts.flatMap laterPieces, isMark c.kind piece = false

instance (c : TextChange) : Decidable c.Tame := List.decidableBAll _ _

/-- **Nothing reads like something else:** a line is shown, behind a path
that is printed as it is and has no blanks around it, and no line starts
like one of a header. -/
structure Plain (c : TextChange) : Prop where
  shown : c.hunks ≠ []
  usual : isUnusual c.path = false
  unpadded : strip c.path = c.path
  added : ∀ l ∈ c.lines, l.mark = .added → ¬ ['+', '+'] <+: l.content
  deleted : ∀ l ∈ c.lines, l.mark = .deleted → ¬ ['-', '-'] <+: l.content

instance (c : TextChange) : Decidable c.Plain :=
  decidable_of_iff (c.hunks ≠ [] ∧ isUnusual c.path = false ∧ strip c.path = c.path ∧
      (∀ l ∈ c.lines, l.mark = .added → ¬ ['+', '+'] <+: l.content) ∧
      ∀ l ∈ c.lines, l.mark = .deleted → ¬ ['-', '-'] <+: l.content)
    ⟨fun ⟨hshown, husual, hunpadded, hadded, hdeleted⟩ =>
      ⟨hshown, husual, hunpadded, hadded, hdeleted⟩,
     fun h => ⟨h.shown, h.usual, h.unpadded, h.added, h.deleted⟩⟩

end TextChange

/-! ## The lines of a hunk -/

theorem startswith_ofList (start : String) (line : List Char) :
    startswith start (.ofList line) = decide (start.toList <+: line) := by
  rw [startswith, String.toList_ofList]

/-- **What lines do to an entry:** its kind stays, those are counted that do
not read like a header, and if there are no others the path stays. -/
structure Reads (current next : FileChange) (lines : List (HunkLine Char)) : Prop where
  changeType : next.changeType = current.changeType
  additions : next.additions = current.additions +
    lines.countP fun l => l.mark = .added ∧ ¬ ['+', '+'] <+: l.content
  deletions : next.deletions = current.deletions +
    lines.countP fun l => l.mark = .deleted ∧ ¬ ['-', '-'] <+: l.content
  path : (∀ l ∈ lines, (l.mark = .added → ¬ ['+', '+'] <+: l.content) ∧
    (l.mark = .deleted → ¬ ['-', '-'] <+: l.content)) → next.path = current.path

namespace Reads

theorem refl (current : FileChange) : Reads current current [] where
  changeType := rfl
  additions := rfl
  deletions := rfl
  path _ := rfl

theorem trans {a b c : FileChange} {ls ms : List (HunkLine Char)} (h : Reads a b ls)
    (h' : Reads b c ms) : Reads a c (ls ++ ms) where
  changeType := h'.changeType.trans h.changeType
  additions := by rw [List.countP_append, ← Nat.add_assoc, ← h.additions, h'.additions]
  deletions := by rw [List.countP_append, ← Nat.add_assoc, ← h.deletions, h'.deletions]
  path hfair := by
    obtain ⟨hls, hms⟩ := List.forall_mem_append.mp hfair
    exact (h'.path hms).trans (h.path hls)

end Reads

theorem not_startswith_of_not_isMark {kind : ChangeType} {line : String}
    (h : isMark kind line = false) : startswith "diff --git" line = false := by
  simp only [isMark, Bool.or_eq_false_iff] at h
  exact h.1.1.1.1.1.1

/-- Lines without a mark are passed over. -/
theorem foldl_read_of_not_isMark {current : FileChange} {lines : List String}
    (h : ∀ line ∈ lines, isMark current.changeType line = false) :
    lines.foldl .read current = current := by
  induction lines with
  | nil => rfl
  | cons line lines ih =>
    obtain ⟨hline, hlines⟩ := List.forall_mem_cons.mp h
    rw [List.foldl_cons, FileChange.read_of_not_isMark hline, ih hlines]

section Read

variable (current : FileChange) (cs : List Char)

theorem read_plus : current.read (.ofList ('+' :: cs)) =
    if ['+', '+', ' ', 'b', '/'] <+: cs then
      { current with path := pathOf (.ofList ('+' :: cs)) }
    else if ['+', '+'] <+: cs then current
    else { current with additions := current.additions + 1 } := by
  simp [FileChange.read, startswith_ofList, List.cons_prefix_cons, -String.ofList_cons]

theorem read_minus : current.read (.ofList ('-' :: cs)) =
    if ['-', '-', ' ', 'a', '/'] <+: cs ∧ current.changeType = .delete then
      { current with path := pathOf (.ofList ('-' :: cs)) }
    else if ['-', '-'] <+: cs then current
    else { current with deletions := current.deletions + 1 } := by
  simp [FileChange.read, startswith_ofList, List.cons_prefix_cons, -String.ofList_cons]

/-- A line that starts like none the parser knows. -/
theorem isMark_of_start {c : Char} (hc : c ∉ ['+', '-', 'n', 'd']) (kind : ChangeType) :
    isMark kind (.ofList (c :: cs)) = false := by
  simp only [List.mem_cons, List.not_mem_nil, or_false, not_or] at hc
  obtain ⟨hplus, hminus, hn, hd⟩ := hc
  simp [isMark, startswith_ofList, List.cons_prefix_cons, -String.ofList_cons, Ne.symm hplus,
    Ne.symm hminus, Ne.symm hn, Ne.symm hd]

end Read

/-- The first piece of a line tells what the line is, unless its content
reads like more of a mark. -/
theorem reads_first (current : FileChange) (l : HunkLine Char) :
    Reads current (current.read (.ofList (l.mark.char :: firstPiece l.content))) [l] := by
  have hplus : ['+', '+'] <+: firstPiece l.content ↔ ['+', '+'] <+: l.content :=
    prefix_firstPiece_iff (List.forall_iff_forall_mem.mp (by decide))
  have hminus : ['-', '-'] <+: firstPiece l.content ↔ ['-', '-'] <+: l.content :=
    prefix_firstPiece_iff (List.forall_iff_forall_mem.mp (by decide))
  rcases hmark : l.mark with _ | _ | _
  · have hother : isMark current.changeType (.ofList (' ' :: firstPiece l.content)) = false :=
      isMark_of_start _ (by decide) _
    rw [LineMark.char, FileChange.read_of_not_isMark hother]
    constructor <;> simp [hmark]
  · rw [LineMark.char, read_plus]
    by_cases hcontent : ['+', '+'] <+: l.content
    · split
      · constructor <;> simp [hmark, hcontent]
      · rw [if_pos (hplus.mpr hcontent)]
        constructor <;> simp [hmark, hcontent]
    · have hlong : ¬ ['+', '+', ' ', 'b', '/'] <+: firstPiece l.content := fun h =>
        hcontent (hplus.mp ((by decide : ['+', '+'] <+: ['+', '+', ' ', 'b', '/']).trans h))
      rw [if_neg hlong, if_neg (mt hplus.mp hcontent)]
      constructor <;> simp [hmark, hcontent]
  · rw [LineMark.char, read_minus]
    by_cases hcontent : ['-', '-'] <+: l.content
    · split
      · constructor <;> simp [hmark, hcontent]
      · rw [if_pos (hminus.mpr hcontent)]
        constructor <;> simp [hmark, hcontent]
    · have hlong : ¬ ['-', '-', ' ', 'a', '/'] <+: firstPiece l.content := fun h =>
        hcontent (hminus.mp ((by decide : ['-', '-'] <+: ['-', '-', ' ', 'a', '/']).trans h))
      rw [if_neg (fun h => hlong h.1), if_neg (mt hminus.mp hcontent)]
      constructor <;> simp [hmark, hcontent]

theorem isMark_of_head {text : String} {c : Char} (htext : text.toList.head? = some c)
    (hc : c ∉ ['+', '-', 'n', 'd']) (kind : ChangeType) : isMark kind text = false := by
  obtain ⟨cs, hcs⟩ := List.head?_eq_some_iff.mp htext
  rw [← String.ofList_toList (s := text), hcs]
  exact isMark_of_start cs hc kind

theorem unbroken_of_isPrintable {text : String} (htext : isPrintable text) :
    ∀ c ∈ text.toList, isLineBoundary c = false := fun c hc =>
  isLineBoundary_of_printable (isPrintable_iff.mp htext c hc).1 (isPrintable_iff.mp htext c hc).2

theorem linePieces_printText {text : String} (htext : ∀ c ∈ text.toList, isLineBoundary c = false) :
    linePieces (printText id text) = [text] := by
  rw [printText, List.map_id, linePieces_of_unbroken htext, String.ofList_toList]

theorem linePieces_print (l : HunkLine Char) : (l.print id).flatMap linePieces =
    .ofList (l.mark.char :: firstPiece l.content) :: (laterPieces l.content ++
      if l.unterminated then ["\\ No newline at end of file"] else []) := by
  have hmark : isLineBoundary l.mark.char = false := by
    cases l.mark <;> decide
  have hcontent := linePieces_append (List.forall_mem_singleton.mpr hmark) l.content
  rw [HunkLine.print, List.flatMap_cons, id, ← List.singleton_append, hcontent, List.cons_append]
  split
  · rw [List.flatMap_singleton, linePieces_printText (unbroken_of_isPrintable (by decide))]
    rfl
  · rfl

/-- **A line of a hunk.** -/
theorem reads_line {current : FileChange} {l : HunkLine Char}
    (htame : ∀ piece ∈ laterPieces l.content, isMark current.changeType piece = false) :
    Reads current (((l.print id).flatMap linePieces).foldl .read current) [l] := by
  have hfirst := reads_first current l
  have hrest : ∀ piece ∈ laterPieces l.content ++
      (if l.unterminated then ["\\ No newline at end of file"] else []),
      isMark (current.read (.ofList (l.mark.char :: firstPiece l.content))).changeType piece =
        false := by
    have hend : isMark current.changeType "\\ No newline at end of file" = false :=
      isMark_of_head rfl (by decide) _
    rw [hfirst.changeType, List.forall_mem_append]
    refine ⟨htame, ?_⟩
    split <;> simp [hend]
  rw [linePieces_print, List.foldl_cons, foldl_read_of_not_isMark hrest]
  exact hfirst

theorem reads_lines {current : FileChange} {lines : List (HunkLine Char)}
    (htame : ∀ l ∈ lines, ∀ piece ∈ laterPieces l.content,
      isMark current.changeType piece = false) :
    Reads current (((lines.flatMap fun l => l.print id).flatMap linePieces).foldl .read current)
      lines := by
  induction lines generalizing current with
  | nil => exact .refl current
  | cons l lines ih =>
    obtain ⟨hl, hlines⟩ := List.forall_mem_cons.mp htame
    have hline := reads_line hl
    rw [List.flatMap_cons, List.flatMap_append, List.foldl_append, ← List.singleton_append]
    exact hline.trans (ih (hline.changeType ▸ hlines))

theorem not_isMark_header {kind : ChangeType} {h : Hunk Char}
    (htame : ∀ piece ∈ laterPieces h.heading, isMark kind piece = false) :
    ∀ piece ∈ linePieces (h.header id), isMark kind piece = false := by
  obtain ⟨range, hrange, hstart, heq⟩ := header_eq id h
  have hblank : ∀ c ∈ [' '], isLineBoundary c = false := List.forall_mem_singleton.mpr (by decide)
  rw [heq, printText, List.map_id, linePieces_append (unbroken_of_isPrintable hrange)]
  refine List.forall_mem_cons.mpr ⟨isMark_of_head (c := '@') ?_ (by decide) _, ?_⟩
  · simp [hstart]
  split
  · exact fun piece hpiece => absurd hpiece List.not_mem_nil
  · have hlater : laterPieces ([' '] ++ h.heading) = laterPieces h.heading := by
      rw [laterPieces, linePieces_append hblank, List.tail_cons]
    rwa [← List.singleton_append, id, hlater]

/-- **A hunk.** -/
theorem reads_hunk {current : FileChange} {h : Hunk Char}
    (htame : ∀ text ∈ h.heading :: h.lines.map fun l => l.content,
      ∀ piece ∈ laterPieces text, isMark current.changeType piece = false) :
    Reads current (((h.print id).flatMap linePieces).foldl .read current) h.lines := by
  obtain ⟨hheading, hlines⟩ := List.forall_mem_cons.mp htame
  rw [Hunk.print, List.flatMap_cons, List.foldl_append,
    foldl_read_of_not_isMark (not_isMark_header hheading)]
  exact reads_lines fun l hl => hlines l.content (List.mem_map_of_mem hl)

theorem reads_hunks {current : FileChange} {hunks : List (Hunk Char)}
    (htame : ∀ h ∈ hunks, ∀ text ∈ h.heading :: h.lines.map fun l => l.content,
      ∀ piece ∈ laterPieces text, isMark current.changeType piece = false) :
    Reads current (((hunks.flatMap fun h => h.print id).flatMap linePieces).foldl .read current)
      (hunks.flatMap fun h => h.lines) := by
  induction hunks generalizing current with
  | nil => exact .refl current
  | cons h hunks ih =>
    obtain ⟨hh, hhunks⟩ := List.forall_mem_cons.mp htame
    have hhunk := reads_hunk hh
    rw [List.flatMap_cons, List.flatMap_append, List.foldl_append, List.flatMap_cons]
    refine hhunk.trans (ih ?_)
    rw [hhunk.changeType]
    exact hhunks

/-! ## The header of a file -/

theorem strip_tabbed (path : String) : strip (tabbed path) = strip path := by
  have htab : isWhitespace '\t' = true := by decide
  unfold tabbed
  split
  · rw [strip, strip, String.toList_append]
    exact congrArg String.ofList (stripChars_append_whitespace htab path.toList)
  · rfl

theorem isUnusual_append (side path : String) :
    isUnusual (side ++ path) = (isUnusual side || isUnusual path) := by
  rw [isUnusual, String.toList_append, List.any_append]
  rfl

/-- The path the parser finds on a label. -/
def labelled (path : String) : String := if isUnusual path then "" else strip path

section Labels

variable (current : FileChange) (text : String)

theorem read_newText : current.read ("+++ " ++ text) =
    if startswith "b/" text then { current with path := strip (.ofList (text.toList.drop 2)) }
    else current := by
  have htext : "+++ " ++ text = .ofList ('+' :: '+' :: '+' :: ' ' :: text.toList) := by
    apply String.toList_injective
    simp
  rw [htext, read_plus, pathOf, String.toList_ofList]
  simp [startswith, List.cons_prefix_cons]

theorem read_oldText : current.read ("--- " ++ text) =
    if startswith "a/" text ∧ current.changeType = .delete then
      { current with path := strip (.ofList (text.toList.drop 2)) }
    else current := by
  have htext : "--- " ++ text = .ofList ('-' :: '-' :: '-' :: ' ' :: text.toList) := by
    apply String.toList_injective
    simp
  rw [htext, read_minus, pathOf, String.toList_ofList]
  simp [startswith, List.cons_prefix_cons]

end Labels

theorem tabbed_append {side : String} (hside : ' ' ∉ side.toList) (path : String) :
    tabbed (side ++ path) = side ++ tabbed path := by
  unfold tabbed
  simp only [String.toList_append, List.mem_append, hside, false_or]
  split
  · rw [String.append_assoc]
  · rfl

/-- **What a label says:** the path, unless it is quoted. -/
theorem label_usual {side path : String} (hside : isUnusual side = false ∧ ' ' ∉ side.toList)
    (hpath : isUnusual path = false) :
    tabbed (quotePath (side ++ path)) = side ++ tabbed path := by
  rw [quotePath_of_usual (by rw [isUnusual_append, hside.1, hpath]; rfl), tabbed_append hside.2]

theorem label_unusual (side : String) {path : String} (hpath : isUnusual path) :
    ∃ rest, (tabbed (quotePath (side ++ path))).toList = '"' :: rest := by
  have hquoted : isUnusual (side ++ path) := by
    rw [isUnusual_append, hpath, Bool.or_true]
  rw [quotePath, if_pos hquoted, tabbed]
  split
  · rw [String.toList_append, String.toList_ofList, List.cons_append, List.cons_append]
    exact ⟨_, rfl⟩
  · rw [String.toList_ofList, List.cons_append]
    exact ⟨_, rfl⟩

/-- The path a label has. -/
theorem read_newLabel {current : FileChange} (hcurrent : current.path = "") (path : String) :
    current.read ("+++ " ++ tabbed (quotePath ("b/" ++ path))) =
      { current with path := labelled path } := by
  rw [read_newText, labelled]
  by_cases hpath : isUnusual path
  · obtain ⟨rest, hrest⟩ := label_unusual "b/" hpath
    rw [if_pos hpath, if_neg (by simp [startswith, hrest]), ← hcurrent]
  · rw [Bool.not_eq_true] at hpath
    have hlabel : tabbed (quotePath ("b/" ++ path)) = "b/" ++ tabbed path :=
      label_usual (by decide) hpath
    have hdrop : String.ofList (("b/" ++ tabbed path).toList.drop 2) = tabbed path := by simp
    rw [hlabel, if_pos (by simp [startswith]), hdrop, strip_tabbed, hpath, if_neg (by simp)]

theorem read_oldLabel {current : FileChange} (hcurrent : current.path = "")
    (hkind : current.changeType = .delete) (path : String) :
    current.read ("--- " ++ tabbed (quotePath ("a/" ++ path))) =
      { current with path := labelled path } := by
  rw [read_oldText, labelled]
  by_cases hpath : isUnusual path
  · obtain ⟨rest, hrest⟩ := label_unusual "a/" hpath
    rw [if_pos hpath, if_neg (by simp [startswith, hrest]), ← hcurrent]
  · rw [Bool.not_eq_true] at hpath
    have hlabel : tabbed (quotePath ("a/" ++ path)) = "a/" ++ tabbed path :=
      label_usual (by decide) hpath
    have hdrop : String.ofList (("a/" ++ tabbed path).toList.drop 2) = tabbed path := by simp
    rw [hlabel, if_pos ⟨by simp [startswith], hkind⟩, hdrop, strip_tabbed, hpath,
      if_neg (by simp)]

namespace TextChange

variable (c : TextChange)

/-- The labels of the two files, if there are hunks behind them. -/
def labelLines : List String :=
  if c.hunks = [] then []
  else ["--- " ++ tabbed (oldLabel c.toDiff), "+++ " ++ tabbed (newLabel c.toDiff)]

theorem read_modeLines : (modeLines c.toDiff).foldl .read ({} : FileChange) =
    { changeType := c.kind } := by
  have hcreate (mode : FileMode) : FileChange.read {} ("new file mode " ++ modeText mode) =
      { changeType := .create } := by
    cases mode <;> decide
  have hdelete (mode : FileMode) : FileChange.read {} ("deleted file mode " ++ modeText mode) =
      { changeType := .delete } := by
    cases mode <;> decide
  have hmodify (mode : FileMode) : FileChange.read {} ("old mode " ++ modeText mode) = {} ∧
      FileChange.read {} ("new mode " ++ modeText mode) = {} := by
    cases mode <;> decide
  cases hkind : c.kind with
  | modify =>
    simp only [modeLines, toDiff, hkind, reduceCtorEq, if_false]
    split
    · rfl
    · rw [List.foldl_cons, (hmodify _).1, List.foldl_cons, (hmodify _).2, List.foldl_nil]
  | create => simp [modeLines, toDiff, hkind, hcreate]
  | delete => simp [modeLines, toDiff, hkind, hdelete]

theorem not_isMark_indexLines (kind : ChangeType) :
    ∀ line ∈ indexLines c.toDiff, isMark kind line = false := by
  intro line hline
  unfold indexLines at hline
  split at hline
  · obtain rfl := List.mem_singleton.mp hline
    exact isMark_of_head (c := 'i') (by simp) (by decide) kind
  · exact absurd hline List.not_mem_nil

theorem oldLabel_eq : oldLabel c.toDiff =
    if c.kind = .create then "/dev/null" else quotePath ("a/" ++ c.path) := by
  cases hkind : c.kind <;> simp [oldLabel, label, toDiff, hkind]

theorem newLabel_eq : newLabel c.toDiff =
    if c.kind = .delete then "/dev/null" else quotePath ("b/" ++ c.path) := by
  cases hkind : c.kind <;> simp [newLabel, label, toDiff, hkind]

theorem read_labelLines : c.labelLines.foldl .read { changeType := c.kind : FileChange } =
    { path := if c.hunks = [] then "" else labelled c.path, changeType := c.kind } := by
  unfold labelLines
  split
  · rfl
  · rw [List.foldl_cons, List.foldl_cons, List.foldl_nil, oldLabel_eq, newLabel_eq]
    by_cases hdelete : c.kind = .delete
    · have hnull : startswith "b/" (tabbed "/dev/null") = false := by decide
      rw [hdelete, if_neg (by decide), if_pos rfl, read_oldLabel rfl rfl, read_newText, hnull,
        if_neg (by simp)]
    · rw [if_neg hdelete, read_oldText, if_neg (fun h => hdelete h.2), read_newLabel rfl]

/-! ## The parser -/

/-- The lines of a change behind its first. -/
def restLines : List (List Char) :=
  (modeLines c.toDiff ++ indexLines c.toDiff ++ c.labelLines).map (printText id) ++
    c.hunks.flatMap fun h => h.print id

/-- What the parser takes from a change. -/
def entry : FileChange := (c.restLines.flatMap linePieces).foldl .read {}

theorem print_toDiff : c.toDiff.print id = printText id
    ("diff --git " ++ quotePath ("a/" ++ c.path) ++ " " ++ quotePath ("b/" ++ c.path)) ::
      c.restLines := by
  have hbody : bodyLines id c.toDiff =
      c.labelLines.map (printText id) ++ c.hunks.flatMap fun h => h.print id := by
    unfold bodyLines labelLines
    cases hhunks : c.hunks with
    | nil => simp [toDiff, hhunks]
    | cons h hunks => simp [toDiff, hhunks]
  rw [FileDiff.print, hbody, headerLines, restLines, List.map_append, ← List.append_assoc]
  simp [renameLines, toDiff]

theorem unbroken_tabbed {text : String} (htext : isPrintable text) :
    ∀ c ∈ (tabbed text).toList, isLineBoundary c = false := by
  unfold tabbed
  split
  · rw [String.toList_append]
    exact List.forall_mem_append.mpr
      ⟨unbroken_of_isPrintable htext, List.forall_iff_forall_mem.mp (by decide)⟩
  · exact unbroken_of_isPrintable htext

theorem unbroken_introLines : ∀ line ∈ modeLines c.toDiff ++ indexLines c.toDiff ++ c.labelLines,
    ∀ d ∈ line.toList, isLineBoundary d = false := by
  intro line hline
  rcases List.mem_append.mp hline with hline | hline
  · rcases List.mem_append.mp hline with hline | hline
    · exact unbroken_of_isPrintable (isPrintable_modeLines hline)
    · exact unbroken_of_isPrintable (isPrintable_indexLines hline)
  · unfold labelLines at hline
    split at hline
    · exact absurd hline List.not_mem_nil
    · rcases List.mem_pair.mp hline with rfl | rfl <;>
        (rw [String.toList_append]
         exact List.forall_mem_append.mpr
           ⟨unbroken_of_isPrintable (by decide), unbroken_tabbed (isPrintable_label _ _ _)⟩)

theorem linePieces_restLines : c.restLines.flatMap linePieces =
    modeLines c.toDiff ++ indexLines c.toDiff ++ c.labelLines ++
      (c.hunks.flatMap fun h => h.print id).flatMap linePieces := by
  have hintro : ∀ line ∈ modeLines c.toDiff ++ indexLines c.toDiff ++ c.labelLines,
      linePieces (printText id line) = [line] := fun line hline =>
    linePieces_printText (c.unbroken_introLines line hline)
  rw [restLines, List.flatMap_append, List.flatMap_map, List.flatMap_congr hintro,
    List.flatMap_singleton']

variable {c}

/-- **What the parser takes from a change.** -/
theorem reads_entry (htame : c.Tame) :
    Reads { path := if c.hunks = [] then "" else labelled c.path, changeType := c.kind } c.entry
      c.lines := by
  have htexts : ∀ h ∈ c.hunks, ∀ text ∈ h.heading :: h.lines.map fun l => l.content,
      ∀ piece ∈ laterPieces text, isMark c.kind piece = false := fun h hh text htext piece hpiece =>
    htame piece (List.mem_flatMap.mpr ⟨text, List.mem_flatMap.mpr ⟨h, hh, htext⟩, hpiece⟩)
  have hindex : (indexLines c.toDiff).foldl .read { changeType := c.kind : FileChange } =
      { changeType := c.kind } :=
    foldl_read_of_not_isMark (c.not_isMark_indexLines c.kind)
  rw [entry, linePieces_restLines, List.foldl_append, List.foldl_append, List.foldl_append,
    read_modeLines, hindex, read_labelLines]
  exact reads_hunks htexts

theorem countP_and_eq_iff {α : Type} {P Q : α → Prop} [DecidablePred P] [DecidablePred Q]
    {l : List α} :
    (l.countP fun x => P x ∧ Q x) = (l.countP fun x => P x) ↔ ∀ x ∈ l, P x → Q x := by
  have hand : (l.countP fun x => P x ∧ Q x) = (l.filter fun x => P x).countP fun x => Q x := by
    rw [List.countP_filter]
    exact List.countP_congr fun x _ => by simp [and_comm]
  rw [hand, List.countP_eq_length_filter (p := fun x => decide (P x)), List.countP_eq_length]
  simp

theorem entry_eq_stats_iff (htame : c.Tame) : c.entry = c.stats ↔ c.Plain := by
  obtain ⟨hkind, hadditions, hdeletions, hpath⟩ := reads_entry htame
  rw [Nat.zero_add] at hadditions hdeletions
  have hiff : c.entry = c.stats ↔ c.entry.path = c.path ∧ c.entry.changeType = c.kind ∧
      c.entry.additions = c.stats.additions ∧ c.entry.deletions = c.stats.deletions :=
    FileChange.ext_iff
  have hshown : (if c.hunks = [] then "" else labelled c.path) = c.path ↔
      c.hunks ≠ [] ∧ isUnusual c.path = false ∧ strip c.path = c.path := by
    have hne : ¬ "" = c.path := Ne.symm c.path_ne
    unfold labelled
    split
    · rename_i hhunks
      simp [hhunks, hne]
    · rename_i hhunks
      by_cases hpath : isUnusual c.path <;> simp [hhunks, hpath, hne]
  rw [hiff, hadditions, hdeletions, stats, countP_and_eq_iff, countP_and_eq_iff]
  constructor
  · rintro ⟨hentry, -, hadded, hdeleted⟩
    rw [hpath fun l hl => ⟨hadded l hl, hdeleted l hl⟩, hshown] at hentry
    exact ⟨hentry.1, hentry.2.1, hentry.2.2, hadded, hdeleted⟩
  · intro hplain
    refine ⟨?_, hkind, hplain.added, hplain.deleted⟩
    rw [hpath fun l hl => ⟨hplain.added l hl, hplain.deleted l hl⟩, hshown]
    exact ⟨hplain.shown, hplain.usual, hplain.unpadded⟩

/-- No line of a change behind its first begins another. -/
theorem startswith_restLines (htame : c.Tame) :
    ∀ line ∈ c.restLines.flatMap linePieces, startswith "diff --git" line = false := by
  intro line hline
  rw [linePieces_restLines] at hline
  rcases List.mem_append.mp hline with hintro | hhunks
  · rcases List.mem_append.mp hintro with hintro | hlabel
    · rcases List.mem_append.mp hintro with hmode | hindex
      · unfold modeLines at hmode
        split at hmode
        · simp [List.mem_singleton.mp hmode, startswith, List.cons_prefix_cons]
        · simp [List.mem_singleton.mp hmode, startswith, List.cons_prefix_cons]
        · split at hmode
          · exact absurd hmode List.not_mem_nil
          · rcases List.mem_pair.mp hmode with rfl | rfl <;> simp [startswith, List.cons_prefix_cons]
        · exact absurd hmode List.not_mem_nil
      · exact not_startswith_of_not_isMark (c.not_isMark_indexLines c.kind line hindex)
    · unfold labelLines at hlabel
      split at hlabel
      · exact absurd hlabel List.not_mem_nil
      · rcases List.mem_pair.mp hlabel with rfl | rfl <;> simp [startswith, List.cons_prefix_cons]
  · rw [List.mem_flatMap] at hhunks
    obtain ⟨text, htext, hpiece⟩ := hhunks
    obtain ⟨h, hh, htext⟩ := List.mem_flatMap.mp htext
    have htexts (text : List Char) (ht : text ∈ h.heading :: h.lines.map fun l => l.content) :
        ∀ piece ∈ laterPieces text, isMark c.kind piece = false := fun piece hpiece =>
      htame piece (List.mem_flatMap.mpr ⟨text, List.mem_flatMap.mpr ⟨h, hh, ht⟩, hpiece⟩)
    rcases List.mem_cons.mp htext with rfl | htext
    · exact not_startswith_of_not_isMark
        (not_isMark_header (htexts _ List.mem_cons_self) line hpiece)
    · obtain ⟨l, hl, htext⟩ := List.mem_flatMap.mp htext
      have hprint : line ∈ (l.print id).flatMap linePieces :=
        List.mem_flatMap.mpr ⟨text, htext, hpiece⟩
      rw [linePieces_print] at hprint
      rcases List.mem_cons.mp hprint with rfl | hprint
      · cases hmark : l.mark <;>
          simp [startswith_ofList, LineMark.char, List.cons_prefix_cons, -String.ofList_cons]
      · rcases List.mem_append.mp hprint with hlater | hend
        · exact not_startswith_of_not_isMark
            (htexts _ (List.mem_cons_of_mem _ (List.mem_map_of_mem hl)) line hlater)
        · split at hend
          · obtain rfl := List.mem_singleton.mp hend
            decide
          · exact absurd hend List.not_mem_nil

end TextChange

theorem foldl_readLine {lines : List String}
    (h : ∀ line ∈ lines, startswith "diff --git" line = false) (changes : List FileChange)
    (current : FileChange) :
    lines.foldl readLine (changes, some current) =
      (changes, some (lines.foldl .read current)) := by
  induction lines generalizing current with
  | nil => rfl
  | cons line lines ih =>
    obtain ⟨hline, hlines⟩ := List.forall_mem_cons.mp h
    rw [List.foldl_cons, readLine, hline, if_neg (by simp), Option.map_some, ih hlines,
      List.foldl_cons]

/-- **A change is read as an entry of its own.** -/
theorem foldl_readLine_print {c : TextChange} (htame : c.Tame)
    (state : List FileChange × Option FileChange) :
    ((c.toDiff.print id).flatMap linePieces).foldl readLine state =
      (state.1 ++ state.2.toList, some c.entry) := by
  have hfirst : startswith "diff --git"
      ("diff --git " ++ quotePath ("a/" ++ c.path) ++ " " ++ quotePath ("b/" ++ c.path)) := by
    simp [startswith]
  have hprintable : isPrintable
      ("diff --git " ++ quotePath ("a/" ++ c.path) ++ " " ++ quotePath ("b/" ++ c.path)) := by
    have hwords : isPrintable "diff --git " ∧ isPrintable " " := by decide
    simp [hwords]
  rw [c.print_toDiff, List.flatMap_cons, linePieces_printText (unbroken_of_isPrintable hprintable),
    List.singleton_append, List.foldl_cons, readLine, if_pos hfirst,
    foldl_readLine (TextChange.startswith_restLines htame)]
  rfl

/-- The entries, that of the file that is read included. -/
def entries (state : List FileChange × Option FileChange) : List FileChange :=
  state.1 ++ state.2.toList

theorem entries_foldl {changes : List TextChange} (htame : ∀ c ∈ changes, c.Tame)
    (state : List FileChange × Option FileChange) :
    entries
        (((changes.flatMap fun c => c.toDiff.print id).flatMap linePieces).foldl readLine state) =
      entries state ++ changes.map fun c => c.entry := by
  induction changes generalizing state with
  | nil => simp
  | cons c changes ih =>
    obtain ⟨hc, hchanges⟩ := List.forall_mem_cons.mp htame
    rw [List.flatMap_cons, List.flatMap_append, List.foldl_append, foldl_readLine_print hc,
      ih hchanges, List.map_cons, entries, Option.toList_some, List.append_assoc,
      List.singleton_append]
    rfl

/-- **A list of changes is read change by change.** -/
theorem parsePatchStats_unifiedDiff {changes : List TextChange} (htame : ∀ c ∈ changes, c.Tame) :
    parsePatchStats (unifiedDiff changes) =
      (changes.map fun c => c.entry).filter fun change => change.path ≠ "" := by
  have hlines := splitlines_flatMap ((changes.map fun c => c.toDiff).flatMap fun d => d.print id)
  rw [List.flatMap_map] at hlines
  have hentries := entries_foldl htame ([], none)
  rw [entries, entries, List.nil_append, Option.toList_none, List.nil_append] at hentries
  unfold parsePatchStats unifiedDiff printDiff
  simp only [id, List.flatMap_map] at hlines ⊢
  rw [hlines, hentries]

/-- **The statistics are right exactly if every change is plain,** where
nothing behind a line boundary within a line reads like a part of a diff. -/
theorem statsRight_iff {changes : List TextChange} (htame : ∀ c ∈ changes, c.Tame) :
    StatsRight changes ↔ ∀ c ∈ changes, c.Plain := by
  have hentries : StatsRight changes ↔
      (changes.map fun c => c.entry) = changes.map fun c => c.stats := by
    rw [StatsRight, parsePatchStats_unifiedDiff htame]
    constructor
    · intro h
      -- as many entries as changes, so none was dropped
      have hlength : ((changes.map fun c => c.entry).filter fun change => change.path ≠ "").length =
          (changes.map fun c => c.entry).length := by
        rw [h, List.length_map, List.length_map]
      rw [List.length_filter_eq_length_iff] at hlength
      rwa [List.filter_eq_self.mpr hlength] at h
    · intro h
      rw [h, List.filter_eq_self]
      intro change hchange
      obtain ⟨c, -, rfl⟩ := List.mem_map.mp hchange
      exact decide_eq_true c.path_ne
  rw [hentries, List.map_inj_left]
  exact forall₂_congr fun c hc => TextChange.entry_eq_stats_iff (htame c hc)

/-- Texts without line boundaries hide nothing. -/
theorem TextChange.tame_of_unbroken {c : TextChange}
    (h : ∀ text ∈ c.texts, ∀ d ∈ text, isLineBoundary d = false) : c.Tame := by
  intro piece hpiece
  obtain ⟨text, htext, hlater⟩ := List.mem_flatMap.mp hpiece
  rw [laterPieces, linePieces_of_unbroken (h text htext)] at hlater
  exact absurd hlater List.not_mem_nil

def oldNotes : TextChange where
  path := "docs/old notes.md"
  kind := .delete
  index := none
  hunks := [{ oldStart := 1, newStart := 0, lines := [⟨.deleted, ['-', ' ', 'a'], false⟩] }]
  path_ne := by decide

def newNotes : TextChange where
  path := "notes.md"
  kind := .create
  newExecutable := true
  index := none
  hunks := [{ oldStart := 0, newStart := 1,
              lines := [⟨.added, ['a', '\x0c', '@'], false⟩, ⟨.added, ['+', 'b'], true⟩] }]
  path_ne := by decide

theorem notes_right : StatsRight [oldNotes, newNotes] :=
  (statsRight_iff (by decide)).mpr (by decide)

/-- An empty file gets a line that reads like part of a header. -/
def plusLine : TextChange where
  path := "notes.md"
  kind := .modify
  index := some (hexName "e69de29", hexName "435bb6b")
  hunks := [{ oldStart := 0, newStart := 1, lines := [⟨.added, ['+', '+', 'i'], false⟩] }]
  path_ne := by decide

theorem plusLine_not_right : ¬ StatsRight [plusLine] := by decide

end PatchStats

end Runtime

end AgentReliability
