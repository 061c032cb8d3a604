import AgentReliability.Common.FileTree
import AgentReliability.Common.PythonText
import AgentReliability.Common.PythonWords
import Mathlib.Data.List.Lex
import Mathlib.Data.String.Basic
/-!
# The tools that read

`read_file` and `search_code` of the toolset. Both resolve a path before
they ask whether it is in the workspace, and both look for `.git` among the
parts of the path as it was given. What they return may depend on a file
that a link leads to.

`re.compile` and `Path.glob` are parameters. What a glob finds depends on
the tree, not on the contents of its files.
-/

namespace AgentReliability

namespace Runtime

namespace ReadTools

open PythonText

/-- `workdir` of the sandbox, and `workdir_prefix` of the toolset. -/
structure ToolPaths where
  workdir : PurePath
  workdirPrefix : String

/-- What `read_text` gives of each file, with a line feed for every line end;
nothing where it cannot be read. -/
abbrev Contents := Location → Option String

inductive ReadError where
  | toolExecution (text : String)
  /-- `RuntimeError` of `Path.resolve`. -/
  | symlinkLoop
  | osError
  /-- `Path.glob` takes no such pattern. -/
  | pattern (text : String)
  deriving DecidableEq, Repr

/-- `READ_DEFAULT_WINDOW`. -/
def readDefaultWindow : ℤ := 200

/-- `READ_MAX_CHARS`. -/
def readMaxChars : ℕ := 50000

/-- `Path.resolve`. -/
def resolve (t : FileTree) (p : PurePath) : Except ReadError Location :=
  match t.realpath p.names with
  | some location => .ok location
  | none => .error .symlinkLoop

/-! ## `read_file` -/

/-- A line with its number. -/
def numberedLine (lines : List String) (i : ℤ) : String :=
  String.ofList (List.leftpad 6 ' ' (toString i).toList) ++ "|" ++ lines.getD (i - 1).toNat ""

/-- The lines that are shown, and how many there are. -/
def shown (path : String) (lines : List String) (startLine endLine : Option ℤ) : String :=
  let total : ℤ := lines.length
  let first := max 1 (match startLine with
    | none => 1
    | some n => if n = 0 then 1 else n)
  let last := match endLine, startLine with
    | some n, _ => min total n
    | none, some _ => min total (first + readDefaultWindow - 1)
    | none, none => if total ≤ readDefaultWindow then total else readDefaultWindow
  let numbered := String.ofList ((("\n".intercalate ((List.range (last + 1 - first).toNat).map
    fun i => numberedLine lines (first + i))).toList).take readMaxChars)
  if 1 < first ∨ last < total then
    "[" ++ path ++ " 共 " ++ toString total ++ " 行，显示 " ++ toString first ++ "-" ++
      toString last ++ "；用 start_line/end_line 读取其他区间，建议先 search_code 定位行号]\n" ++
      numbered
  else numbered

section

variable (w : ToolPaths) (t : FileTree) (contents : Contents)

/-- The answer where there is no file. -/
def notFound (path : String) : Except ReadError String :=
  if w.workdirPrefix = "" then .ok ("[error] 文件不存在: " ++ path ++ "（path 需相对仓库根）")
  else do
    let candidate ← resolve t ((w.workdir.join (.parse w.workdirPrefix)).join (.parse path))
    if (t.openedFile candidate).isSome then
      .ok ("[error] 文件不存在: " ++ path ++ "。path 需相对仓库根，你可能想读 " ++
        w.workdirPrefix ++ "/" ++ path)
    else .ok ("[error] 文件不存在: " ++ path ++ "（path 需相对仓库根）")

/-- `read_file`. -/
def readFile (path : String) (startLine endLine : Option ℤ) : Except ReadError String := do
  let target ← resolve t (w.workdir.join (.parse path))
  let workdir ← resolve t w.workdir
  if ¬ workdir <+: target ∨ ".git" ∈ (PurePath.parse path).names then
    .error (.toolExecution ("路径越界: " ++ path))
  else match t.openedFile target with
    | none => notFound w t path
    | some location =>
      match contents location with
      | none => .error .osError
      | some text => .ok (shown path (splitlines text) startLine endLine)

/-! ## `search_code` -/

/-- The hits in a file. -/
def hitsIn (search : String → Bool) (rel : PurePath) (text : String) : List String :=
  ((splitlines text).zipIdx 1).filterMap fun (line, lineno) =>
    if search line then
      some (rel.str ++ ":" ++ toString lineno ++ ": " ++ String.ofList ((strip line).toList.take 200))
    else none

/-- The parts of a file that was found below the workdir. -/
def partsOf (rel : PurePath) : List String := w.workdir.names ++ rel.names

/-- The loop of `search_code`, with the hits there are. -/
def searchFiles (search : String → Bool) : List PurePath → List String → Except ReadError (List String)
  | [], hits => .ok hits
  | rel :: files, hits =>
    match t.realpath (partsOf w rel) with
    | none => .error .symlinkLoop
    | some resolved => do
      let workdir ← resolve t w.workdir
      if ¬ workdir <+: resolved then searchFiles search files hits
      else match t.openedFile (partsOf w rel) with
        | none => searchFiles search files hits
        | some location =>
          if ".git" ∈ partsOf w rel ∨ "node_modules" ∈ partsOf w rel then
            searchFiles search files hits
          else match contents location with
            | none => searchFiles search files hits
            | some text =>
              let hits := hits ++ hitsIn search rel text
              if 100 ≤ hits.length then .ok (hits.take 100) else searchFiles search files hits

/-- `search_code`. -/
def searchCode (compile : String → Except String (String → Bool))
    (glob : FileTree → PurePath → String → Except ReadError (List PurePath))
    (pattern globPattern : String) : Except ReadError String :=
  match compile pattern with
  | .error text => .ok ("[error] 非法正则: " ++ text)
  | .ok search => do
    let found ← glob t w.workdir globPattern
    let files := found.mergeSort fun a b => a.names ≤ b.names
    let hits ← searchFiles w t contents search files []
    if hits = [] then .ok "[no matches]" else .ok ("\n".intercalate hits)

/-! ## Confinement -/

/-- A location in the workspace, and not in its `.git` directory. -/
def Allowed (location : Location) : Prop :=
  ∃ workdir, t.realpath w.workdir.names = some workdir ∧ workdir <+: location ∧
    ¬ workdir ++ [".git"] <+: location

/-- What the tools return depends only on the contents of some files. -/
def DependsOnly (files : Location → Prop) : Prop :=
  ∀ contents contents' : Contents,
    (∀ location, files location → contents location = contents' location) →
      (∀ path startLine endLine, readFile w t contents path startLine endLine =
        readFile w t contents' path startLine endLine) ∧
      ∀ compile glob pattern globPattern,
        searchCode w t contents compile glob pattern globPattern =
          searchCode w t contents' compile glob pattern globPattern

/-- **The tools are confined** to what is allowed. -/
def Confined : Prop := DependsOnly w t (Allowed w t)

/-- A file in the workspace that a path without a part `.git` leads to. -/
def Readable (location : Location) : Prop :=
  ∃ (p : PurePath) (workdir : Location), ".git" ∉ p.names ∧
    t.realpath w.workdir.names = some workdir ∧ t.realpath (w.workdir.join p).names = some location ∧
      workdir <+: location ∧ t.kind location = some .file

/-- No path without a part `.git` leads to a file in that directory. -/
def NoHiddenFile : Prop :=
  ∀ (p : PurePath) (workdir location : Location), ".git" ∉ p.names →
    t.realpath w.workdir.names = some workdir →
      t.realpath (w.workdir.join p).names = some location → t.kind location = some .file →
        ¬ workdir ++ [".git"] <+: location

end

section

variable {w : ToolPaths} {t : FileTree}

theorem resolve_eq_ok {p : PurePath} {location : Location} :
    resolve t p = .ok location ↔ t.realpath p.names = some location := by
  unfold resolve
  cases t.realpath p.names with
  | none => simp
  | some found => simp

section

variable {contents contents' : Contents}

/-- What `read_file` reads is readable. -/
theorem readFile_congr
    (hsame : ∀ location, Readable w t location → contents location = contents' location)
    (path : String) (startLine endLine : Option ℤ) :
    readFile w t contents path startLine endLine =
      readFile w t contents' path startLine endLine := by
  unfold readFile
  cases htarget : resolve t (w.workdir.join (.parse path)) with
  | error e => rfl
  | ok target =>
    cases hworkdir : resolve t w.workdir with
    | error e => rfl
    | ok workdir =>
      show (if _ then _ else _) = if _ then _ else _
      split
      · rfl
      · next hchecked =>
        obtain ⟨hin, hgit⟩ := not_or.mp hchecked
        cases hopened : t.openedFile target with
        | none => rfl
        | some location =>
          rw [resolve_eq_ok] at htarget hworkdir
          -- what is opened is the target itself
          obtain rfl := FileTree.openedFile_of_realpath htarget hopened
          have hfile := (FileTree.openedFile_eq_some.mp hopened).2
          simp only [hsame _ ⟨_, workdir, hgit, hworkdir, htarget, not_not.mp hin, hfile⟩]

/-- What the loop of `search_code` reads is readable. -/
theorem searchFiles_congr
    (hsame : ∀ location, Readable w t location → contents location = contents' location)
    (search : String → Bool) (files : List PurePath) (hits : List String) :
    searchFiles w t contents search files hits = searchFiles w t contents' search files hits := by
  induction files generalizing hits with
  | nil => rfl
  | cons rel files ih =>
    unfold searchFiles
    cases hresolved : t.realpath (partsOf w rel) with
    | none => rfl
    | some resolved =>
      cases hworkdir : resolve t w.workdir with
      | error e => rfl
      | ok workdir =>
        show (if _ then _ else _) = if _ then _ else _
        split
        · exact ih hits
        · next hin =>
          cases hopened : t.openedFile (partsOf w rel) with
          | none => exact ih hits
          | some location =>
            show (if _ then _ else _) = if _ then _ else _
            split
            · exact ih hits
            · next hskipped =>
              obtain ⟨hgit, -⟩ := not_or.mp hskipped
              rw [resolve_eq_ok] at hworkdir
              obtain rfl := FileTree.openedFile_eq_realpath hresolved hopened
              have hfile := (FileTree.openedFile_eq_some.mp hopened).2
              let p : PurePath := ⟨false, rel.names, rel.valid⟩
              have hnames : ".git" ∉ p.names :=
                fun hmem => hgit (List.mem_append_right w.workdir.names hmem)
              simp only [hsame _ ⟨p, workdir, hnames, hworkdir, hresolved, not_not.mp hin, hfile⟩, ih]

theorem searchCode_congr
    (hsame : ∀ location, Readable w t location → contents location = contents' location)
    (compile : String → Except String (String → Bool))
    (glob : FileTree → PurePath → String → Except ReadError (List PurePath))
    (pattern globPattern : String) : searchCode w t contents compile glob pattern globPattern =
      searchCode w t contents' compile glob pattern globPattern := by
  unfold searchCode
  simp only [searchFiles_congr hsame]

end

/-- **The tools read what is readable**, and nothing else. -/
theorem dependsOnly_readable {files : Location → Prop}
    (h : ∀ location, Readable w t location → files location) : DependsOnly w t files := by
  intro contents contents' hsame
  have hreadable : ∀ location, Readable w t location → contents location = contents' location :=
    fun location hlocation => hsame location (h location hlocation)
  refine ⟨readFile_congr hreadable, ?_⟩
  intro compile glob pattern globPattern
  exact searchCode_congr hreadable compile glob pattern globPattern

/-- **They never leave the workspace**, whatever the links. -/
theorem dependsOnly_workspace (w : ToolPaths) (t : FileTree) : DependsOnly w t fun location =>
    ∃ workdir, t.realpath w.workdir.names = some workdir ∧ workdir <+: location := by
  refine dependsOnly_readable ?_
  rintro location ⟨p, workdir, -, hworkdir, -, hin, -⟩
  exact ⟨workdir, hworkdir, hin⟩

/-- **A file that is hidden in `.git` and not named so is read.** -/
theorem not_confined_of_hidden {p : PurePath} {workdir location : Location}
    (hgit : ".git" ∉ p.names) (hworkdir : t.realpath w.workdir.names = some workdir)
    (hresolved : t.realpath (w.workdir.join p).names = some location)
    (hfile : t.kind location = some .file) (hhidden : workdir ++ [".git"] <+: location) :
    ¬ Confined w t := by
  intro hconfined
  have hread : ∀ contents : Contents, ∀ text, contents location = some text →
      readFile w t contents p.str none none =
        .ok (shown p.str (splitlines text) none none) := by
    intro contents text htext
    have hin : workdir <+: location := (List.prefix_append _ _).trans hhidden
    unfold readFile
    rw [PurePath.parse_str, resolve_eq_ok.mpr hresolved, resolve_eq_ok.mpr hworkdir]
    show (if _ then _ else _) = _
    rw [if_neg (by simp [hin, hgit]), FileTree.openedFile_of_kind hfile]
    show (match contents location with | none => _ | some text => _) = _
    rw [htext]
  -- two contents that differ in this file only
  have hsame : ∀ other, Allowed w t other →
      Function.update (fun _ => some "a") location (some "b") other = (fun _ => some "a") other := by
    rintro other ⟨workdir', hworkdir', -, hout⟩
    obtain rfl := Option.some.inj (hworkdir.symm.trans hworkdir')
    rw [Function.update_of_ne]
    rintro rfl
    exact hout hhidden
  have heq := (hconfined _ _ hsame).1 p.str none none
  rw [hread _ "b" (Function.update_self _ _ _), hread (fun _ => some "a") "a" rfl] at heq
  have ha : shown p.str (splitlines "a") none none = "     1|a" := rfl
  have hb : shown p.str (splitlines "b") none none = "     1|b" := rfl
  rw [ha, hb] at heq
  exact absurd (Except.ok.inj heq) (by decide)

theorem confined_of_noHiddenFile (h : NoHiddenFile w t) : Confined w t := by
  refine dependsOnly_readable ?_
  rintro location ⟨p, workdir, hgit, hworkdir, hresolved, hin, hfile⟩
  exact ⟨workdir, hworkdir, hin, h p workdir location hgit hworkdir hresolved hfile⟩

/-- **A workspace without links into `.git` is enough.** -/
theorem confined_of_noLinkInto {workdir : Location}
    (hworkdir : t.realpath w.workdir.names = some workdir) (hname : ".git" ∉ w.workdir.names)
    (hlinks : t.NoLinkInto (workdir ++ [".git"])) : Confined w t := by
  refine confined_of_noHiddenFile ?_
  intro p workdir' location hgit hworkdir' hresolved _
  obtain rfl := Option.some.inj (hworkdir.symm.trans hworkdir')
  have hnames : ".git" ∉ (w.workdir.join p).names := by
    unfold PurePath.join
    split
    · exact hgit
    · intro hmem
      rcases List.mem_append.mp hmem with hmem | hmem
      · exact hname hmem
      · exact hgit hmem
  exact FileTree.not_within_of_realpath hlinks hnames hresolved

/-- **The tools are confined exactly if no path without a part `.git` leads
to a file in that directory.** -/
theorem confined_iff (w : ToolPaths) (t : FileTree) : Confined w t ↔ NoHiddenFile w t := by
  constructor
  · intro hconfined p workdir location hgit hworkdir hresolved hfile hhidden
    exact not_confined_of_hidden hgit hworkdir hresolved hfile hhidden hconfined
  · exact confined_of_noHiddenFile

end

/-- A workspace in which `notes` is a link to `.git`. -/
def linkedTree : FileTree where
  entries := [(["repo"], .dir), (["repo", ".git"], .dir), (["repo", ".git", "config"], .file),
    (["repo", "notes"], .link ".git")]
  parents := by decide
  named := by decide

/-- Its `config` is read as `notes/config`. -/
theorem linkedTree_not_confined : ¬ ∀ w t, Confined w t := by
  intro hall
  have hworkdir : linkedTree.realpath (PurePath.parse "/repo").names = some ["repo"] := by decide
  have hresolved : linkedTree.realpath ((PurePath.parse "/repo").join (.parse "notes/config")).names =
      some ["repo", ".git", "config"] := by decide
  exact not_confined_of_hidden (by decide) hworkdir hresolved (by decide) (by decide)
    (hall ⟨.parse "/repo", ""⟩ linkedTree)

end ReadTools

end Runtime

end AgentReliability
