import Mathlib.Data.List.Infix
import Mathlib.Data.List.TakeWhile
import Mathlib.Tactic.Common
/-!
# Text functions of the Python standard library

`str.splitlines`, the blank lines `str.strip` leaves nothing of, `in`,
`Path.name` and `fnmatch`, as they are documented. Lines that were joined
with line feeds, and that have no line boundary of their own, are split
into what they were.
-/

namespace AgentReliability

namespace PythonText

/-! ## Lines -/

/-- The line boundaries of `str.splitlines`. -/
def isLineBoundary (c : Char) : Bool :=
  c ∈ ['\n', '\x0b', '\x0c', '\r', '\x1c', '\x1d', '\x1e', '\u0085', '\u2028', '\u2029']

/-- The rest of the lines, after the characters of the one that is being
read, in reverse. -/
def splitlinesFrom : List Char → List Char → List String
  | [], [] => []
  | line, [] => [.ofList line.reverse]
  | line, '\r' :: '\n' :: cs => .ofList line.reverse :: splitlinesFrom [] cs
  | line, c :: cs =>
    if isLineBoundary c then .ofList line.reverse :: splitlinesFrom [] cs
    else splitlinesFrom (c :: line) cs

def splitlines (text : String) : List String := splitlinesFrom [] text.toList

/-- The characters `str.strip` removes. -/
def isWhitespace (c : Char) : Bool :=
  isLineBoundary c || c ∈ [' ', '\t', '\x1f', '\u00a0', '\u1680', '\u202f', '\u205f', '\u3000'] ||
    ('\u2000' ≤ c && c ≤ '\u200a')

/-- `not text.strip()`. -/
def isBlank (text : String) : Bool := text.toList.all isWhitespace

/-- A boundary that is not the first half of one ends the line. -/
theorem splitlinesFrom_boundary {c : Char} (hc : isLineBoundary c) {cs : List Char}
    (hpair : ∀ rest, c = '\r' → cs ≠ '\n' :: rest) (line : List Char) :
    splitlinesFrom line (c :: cs) = .ofList line.reverse :: splitlinesFrom [] cs := by
  rw [splitlinesFrom, if_pos hc]
  exact hpair

theorem splitlinesFrom_other {c : Char} (hc : isLineBoundary c = false) (line cs : List Char) :
    splitlinesFrom line (c :: cs) = splitlinesFrom (c :: line) cs := by
  rw [splitlinesFrom, hc, if_neg (by simp)]
  rintro rest rfl
  exact absurd hc (by decide)

/-- **What a line feed ends does not depend on what follows.** -/
theorem splitlinesFrom_feed (line cs rest : List Char) :
    splitlinesFrom line (cs ++ '\n' :: rest) =
      splitlinesFrom line (cs ++ ['\n']) ++ splitlinesFrom [] rest := by
  have hfeed : isLineBoundary '\n' = true := by decide
  have hend (line rest : List Char) :
      splitlinesFrom line ('\n' :: rest) = .ofList line.reverse :: splitlinesFrom [] rest :=
    splitlinesFrom_boundary hfeed (by simp) line
  induction line, cs using splitlinesFrom.induct with
  | case1 => simp [hend, splitlinesFrom]
  | case2 line h => simp [hend, splitlinesFrom]
  | case3 line cs ih => simp [splitlinesFrom, ih]
  | case4 line c cs h hc ih =>
    by_cases hlast : c = '\r' ∧ cs = []
    · -- the line feed is the second half of this boundary
      obtain ⟨rfl, rfl⟩ := hlast
      simp [splitlinesFrom]
    · have hpair (feed tail : List Char) : c = '\r' → cs ++ '\n' :: feed ≠ '\n' :: tail := by
        intro hr
        cases cs with
        | nil => exact absurd ⟨hr, rfl⟩ hlast
        | cons d cs =>
          intro hcons
          exact h cs hr (by rw [(List.cons.inj hcons).1])
      rw [List.cons_append, List.cons_append, splitlinesFrom_boundary hc (hpair rest),
        splitlinesFrom_boundary hc (hpair []), ih, List.cons_append]
  | case5 line c cs h hc ih =>
    rw [Bool.not_eq_true] at hc
    rw [List.cons_append, List.cons_append, splitlinesFrom_other hc, splitlinesFrom_other hc, ih]

/-- A line up to its first boundary. -/
def firstPiece (line : List Char) : List Char := line.takeWhile fun c => ¬ isLineBoundary c

/-- The lines a line of a text is read as, where it has boundaries besides
its line feed. -/
def linePieces (line : List Char) : List String := splitlinesFrom [] (line ++ ['\n'])

/-- The pieces of a line that do not start where it starts. -/
def laterPieces (line : List Char) : List String := (linePieces line).tail

theorem splitlines_flatMap (lines : List (List Char)) :
    splitlines (.ofList (lines.flatMap fun line => line ++ ['\n'])) = lines.flatMap linePieces := by
  unfold splitlines
  rw [String.toList_ofList]
  induction lines with
  | nil => rfl
  | cons line lines ih =>
    rw [List.flatMap_cons, List.append_assoc, List.singleton_append, splitlinesFrom_feed, ih,
      List.flatMap_cons]
    rfl

theorem firstPiece_boundary {c : Char} (hc : isLineBoundary c) (cs : List Char) :
    firstPiece (c :: cs) = [] :=
  List.takeWhile_cons_of_neg (by simpa using hc)

theorem firstPiece_other {c : Char} (hc : isLineBoundary c = false) (cs : List Char) :
    firstPiece (c :: cs) = c :: firstPiece cs :=
  List.takeWhile_cons_of_pos (by simpa using hc)

/-- **A line is read as its start, up to the first boundary, and what
follows.** -/
theorem splitlinesFrom_later (line cs : List Char) :
    splitlinesFrom line (cs ++ ['\n']) =
      .ofList (line.reverse ++ firstPiece cs) :: laterPieces cs := by
  induction cs generalizing line with
  | nil => simp [laterPieces, linePieces, firstPiece, splitlinesFrom, isLineBoundary]
  | cons c cs ih =>
    by_cases hc : isLineBoundary c
    · have hrest : ∃ rest, ∀ line, splitlinesFrom line (c :: cs ++ ['\n']) =
          .ofList line.reverse :: splitlinesFrom [] rest := by
        by_cases hpair : c = '\r' ∧ ∃ rest, cs ++ ['\n'] = '\n' :: rest
        · obtain ⟨rfl, rest, hpair⟩ := hpair
          refine ⟨rest, fun line => ?_⟩
          rw [List.cons_append, hpair, splitlinesFrom]
        · exact ⟨cs ++ ['\n'], splitlinesFrom_boundary hc fun rest hr hcons =>
            hpair ⟨hr, rest, hcons⟩⟩
      obtain ⟨rest, hrest⟩ := hrest
      rw [firstPiece_boundary hc, List.append_nil, laterPieces, linePieces, hrest, hrest,
        List.tail_cons]
    · rw [Bool.not_eq_true] at hc
      have hlater : laterPieces (c :: cs) = laterPieces cs := by
        rw [laterPieces, linePieces, List.cons_append, splitlinesFrom_other hc, ih, List.tail_cons]
      rw [firstPiece_other hc, List.cons_append, splitlinesFrom_other hc, ih, hlater,
        List.reverse_cons, List.append_assoc, List.singleton_append]

theorem linePieces_append {cs : List Char} (hcs : ∀ c ∈ cs, isLineBoundary c = false)
    (rest : List Char) :
    linePieces (cs ++ rest) = .ofList (cs ++ firstPiece rest) :: laterPieces rest := by
  have hlines : ∀ line, splitlinesFrom line (cs ++ rest ++ ['\n']) =
      .ofList (line.reverse ++ cs ++ firstPiece rest) :: laterPieces rest := by
    induction cs with
    | nil =>
      intro line
      rw [List.nil_append, List.append_nil, splitlinesFrom_later]
    | cons c cs ih =>
      intro line
      obtain ⟨hc, htail⟩ := List.forall_mem_cons.mp hcs
      rw [List.cons_append, List.cons_append, splitlinesFrom_other hc, ih htail, List.reverse_cons,
        List.append_assoc line.reverse, List.singleton_append]
  exact hlines []

theorem linePieces_of_unbroken {line : List Char} (hline : ∀ c ∈ line, isLineBoundary c = false) :
    linePieces line = [.ofList line] := by
  have hpieces := linePieces_append hline []
  rw [List.append_nil, firstPiece, List.takeWhile_nil, List.append_nil] at hpieces
  rw [hpieces]
  rfl

theorem prefix_firstPiece_iff {start line : List Char}
    (hstart : ∀ c ∈ start, isLineBoundary c = false) :
    start <+: firstPiece line ↔ start <+: line := by
  refine ⟨fun h => h.trans (List.takeWhile_prefix _), ?_⟩
  rintro ⟨rest, rfl⟩
  rw [firstPiece, List.takeWhile_append_of_pos fun c hc => by simp [hstart c hc]]
  exact List.prefix_append _ _

/-- **Lines are split into what they were.** -/
theorem splitlines_join {lines : List String}
    (h : ∀ line ∈ lines, ∀ c ∈ line.toList, isLineBoundary c = false) :
    splitlines (.ofList (lines.flatMap fun line => line.toList ++ ['\n'])) = lines := by
  have hpieces : ∀ line ∈ lines, linePieces line.toList = [line] := fun line hline => by
    rw [linePieces_of_unbroken (h line hline), String.ofList_toList]
  calc
    _ = lines.flatMap fun line => linePieces line.toList := by
      have hlines := splitlines_flatMap (lines.map String.toList)
      rwa [List.flatMap_map, List.flatMap_map] at hlines
    _ = lines.flatMap List.singleton := List.flatMap_congr hpieces
    _ = lines := List.flatMap_singleton' lines

/-- No printable ASCII character is a line boundary. -/
theorem isLineBoundary_of_printable {c : Char} (hlo : 32 ≤ c.toNat) (hhi : c.toNat < 127) :
    isLineBoundary c = false := by
  unfold isLineBoundary
  simp only [List.mem_cons, List.not_mem_nil, or_false, decide_eq_false_iff_not, not_or]
  refine ⟨?_, ?_, ?_, ?_, ?_, ?_, ?_, ?_, ?_, ?_⟩
  all_goals
    rintro rfl
    revert hlo hhi
    decide

/-! ## Parts of a text -/

/-- `needle in text`. -/
def contains (needle text : String) : Bool := needle.toList <:+: text.toList

/-- `text.startswith(start)`. -/
def startswith (start text : String) : Bool := start.toList <+: text.toList

/-- `Path(path).name`: the last component, empty components and single dots
apart. -/
def pathName (path : String) : String :=
  .ofList (((path.toList.splitOn '/').filter fun part => part ≠ [] ∧ part ≠ ['.']).getLastD [])

/-- `Path(path).parts`, of a relative path. -/
def pathParts (path : String) : List String :=
  ((path.toList.splitOn '/').filter fun part => part ≠ [] ∧ part ≠ ['.']).map String.ofList

/-! ## `fnmatch` -/

inductive Glob where
  | star | any
  | char (c : Char)
  | set (negated : Bool) (ranges : List (Char × Char))
  deriving DecidableEq, Repr

/-- What stands between the brackets: a hyphen between two characters makes
a range, which is empty if they are in the wrong order. -/
def ranges : List Char → List (Char × Char)
  | c :: '-' :: d :: rest => (c, d) :: ranges rest
  | c :: rest => (c, c) :: ranges rest
  | [] => []

/-- The characters up to the closing bracket, and those after it. -/
def closeSet : List Char → Option (List Char × List Char)
  | [] => none
  | ']' :: rest => some ([], rest)
  | c :: rest => (closeSet rest).map fun (body, rest) => (c :: body, rest)

/-- A closing bracket that comes first is one of the characters. -/
def openSet : List Char → Option (List Char × List Char)
  | ']' :: rest => (closeSet rest).map fun (body, rest) => (']' :: body, rest)
  | cs => closeSet cs

/-- After an opening bracket: the set, unless no bracket closes it. -/
def readSet : List Char → Option (Glob × List Char)
  | '!' :: rest => (openSet rest).map fun (body, rest) => (.set true (ranges body), rest)
  | cs => (openSet cs).map fun (body, rest) => (.set false (ranges body), rest)

/-- The parts of a pattern; the number bounds its length. -/
def translate : ℕ → List Char → List Glob
  | 0, _ => []
  | _, [] => []
  | n + 1, '*' :: cs => .star :: translate n cs
  | n + 1, '?' :: cs => .any :: translate n cs
  | n + 1, '[' :: cs =>
    match readSet cs with
    | some (set, rest) => set :: translate n rest
    | none => .char '[' :: translate n cs
  | n + 1, c :: cs => .char c :: translate n cs

def Glob.accepts : Glob → Char → Bool
  | star, _ => true
  | any, _ => true
  | char d, c => c == d
  | set negated ranges, c => (ranges.any fun (lo, hi) => lo ≤ c && c ≤ hi) != negated

def globMatch : List Glob → List Char → Bool
  | [], cs => cs.isEmpty
  | .star :: globs, cs => cs.tails.any (globMatch globs)
  | _ :: _, [] => false
  | glob :: globs, c :: cs => glob.accepts c && globMatch globs cs

/-- `fnmatch(name, pattern)`, where file names are case sensitive. -/
def fnmatch (name pattern : String) : Bool :=
  globMatch (translate pattern.length pattern.toList) name.toList

example : fnmatch "pkg/src/a/b.ts" "pkg/src/**" ∧ ¬ fnmatch "pkg/other.ts" "pkg/src/**" ∧
    fnmatch "v7" "v[!0-5]" ∧ fnmatch "[x" "[x" ∧ fnmatch "]" "[]a]" := by decide

end PythonText

end AgentReliability
