import AgentReliability.Common.Guard
import AgentReliability.Common.PythonText
import Mathlib.Data.List.Dedup
import Mathlib.Data.List.Sort
import Mathlib.Data.String.Basic
/-!
# Work trees as git sees them

A tree gives each path its blob. Of the files of a work tree, git tracks
those of its index; `git diff <commit>` compares the commit with what git
would store of them, after the conversions of their attributes.
`capture_patch` adds the files that are new to the index, the ignored ones
and those of a cache apart, and takes the diff. It adds them by name, and
`git add` reads a name as a pathspec.
-/

namespace AgentReliability

namespace Runtime

open PythonText

/-! ## Trees -/

inductive FileMode where
  | regular | executable | symlink | submodule
  deriving DecidableEq, Repr

def FileMode.isFile : FileMode → Bool
  | .regular | .executable => true
  | .symlink | .submodule => false

/-- A file. The content of a symlink is its target, that of a submodule its
commit. -/
structure Blob where
  mode : FileMode
  content : List UInt8
  deriving DecidableEq, Repr

/-- A converted content. The target of a symlink and the commit of a
submodule are not converted. -/
def Blob.convert (f : List UInt8 → List UInt8) (b : Blob) : Blob :=
  if b.mode.isFile then { b with content := f b.content } else b

theorem Blob.convert_mode (f : List UInt8 → List UInt8) (b : Blob) : (b.convert f).mode = b.mode := by
  unfold Blob.convert
  split <;> rfl

theorem Blob.convert_of_symlink {f : List UInt8 → List UInt8} {b : Blob} (h : b.mode = .symlink) :
    b.convert f = b := by
  rw [Blob.convert, h]
  exact if_neg (by simp [FileMode.isFile])

/-- What a commit records, or a directory has: a blob for each of finitely
many paths. -/
structure Tree where
  paths : List String
  blob : String → Option Blob
  sorted : paths.Pairwise (· < ·)
  mem_paths : ∀ path, path ∈ paths ↔ blob path ≠ none

namespace Tree

theorem ext_blob {t u : Tree} (h : ∀ path, t.blob path = u.blob path) : t = u := by
  obtain ⟨paths, blob, sorted, mem_paths⟩ := t
  obtain ⟨paths', blob', sorted', mem_paths'⟩ := u
  obtain rfl : blob = blob' := funext h
  have hmem : ∀ path, path ∈ paths ↔ path ∈ paths' := fun path =>
    (mem_paths path).trans (mem_paths' path).symm
  have hperm : paths.Perm paths' :=
    (List.perm_ext_iff_of_nodup (sorted.imp ne_of_lt) (sorted'.imp ne_of_lt)).mpr hmem
  obtain rfl : paths = paths' := hperm.eq_of_pairwise (fun a b _ _ hab hba =>
    absurd (lt_trans hab hba) (lt_irrefl a)) sorted sorted'
  rfl

/-- The files at the paths that are kept. -/
def restrict (t : Tree) (keep : String → Bool) : Tree where
  paths := t.paths.filter keep
  blob path := if keep path then t.blob path else none
  sorted := t.sorted.filter _
  mem_paths path := by
    rw [List.mem_filter, t.mem_paths]
    by_cases h : keep path <;> simp [h]

/-- The files with their contents converted. -/
def convert (t : Tree) (f : String → List UInt8 → List UInt8) : Tree where
  paths := t.paths
  blob path := (t.blob path).map (Blob.convert (f path))
  sorted := t.sorted
  mem_paths path := by rw [t.mem_paths, ne_eq, ne_eq, Option.map_eq_none_iff]

/-- The paths at which two trees differ. -/
def changed (t u : Tree) : List String :=
  (t.paths ++ u.paths).dedup.filter fun path => t.blob path ≠ u.blob path

theorem mem_changed {t u : Tree} {path : String} :
    path ∈ t.changed u ↔ t.blob path ≠ u.blob path := by
  unfold changed
  rw [List.mem_filter, List.mem_dedup, List.mem_append, t.mem_paths, u.mem_paths, decide_eq_true_eq]
  refine ⟨fun h => h.2, fun h => ⟨?_, h⟩⟩
  by_contra hboth
  obtain ⟨ht, hu⟩ := not_or.mp hboth
  rw [not_not] at ht hu
  exact h (ht.trans hu.symm)

end Tree

/-- The tree of one file. -/
def oneFile (path : String) (content : List UInt8) : Tree where
  paths := [path]
  blob other := if other = path then some ⟨.regular, content⟩ else none
  sorted := List.pairwise_singleton _ _
  mem_paths other := by simp

theorem eq_of_mem_oneFile {path other : String} {content : List UInt8} {b : Blob}
    (h : b ∈ (oneFile path content).blob other) : b = ⟨.regular, content⟩ := by
  have hblob : (if other = path then some (⟨.regular, content⟩ : Blob) else none) = some b := h
  split at hblob
  · exact (Option.some.inj hblob).symm
  · exact absurd hblob (by simp)

/-! ## Git -/

/-- A commit, by its SHA and its tree. -/
structure Commit where
  sha : String
  tree : Tree

/-- A work tree with its index. -/
structure Checkout where
  head : String
  files : Tree
  tracked : List String

/-- **What git does with the files of a work tree,** with its defaults. -/
structure GitFiles where
  /-- The pairs of an old and a new name that rename detection finds between
  a commit and what is tracked. -/
  renames : Tree → Tree → List (String × String)
  /-- It pairs a file that is gone with one that was added. -/
  renames_spec : ∀ {t u : Tree} {old new : String}, (old, new) ∈ renames t u →
    t.blob old ≠ none ∧ u.blob old = none ∧ t.blob new = none ∧ u.blob new ≠ none
  /-- `git apply`, on the files of a work tree. -/
  apply : Tree → String → Option Tree
  /-- What the ignore files of a work tree exclude. -/
  ignored : Tree → String → Bool
  /-- The files a checkout writes, their contents converted. -/
  smudge : Tree → Tree
  /-- The content git stores of a file: the attributes of its path can convert
  its line ends, its encoding and more. -/
  clean : Checkout → String → List UInt8 → List UInt8
  /-- The paths that `git add -N -- <pathspec>` adds to the index, unless it
  fails. -/
  adds : Checkout → String → Option (List String)
  /-- The name of a file is a pathspec of it, unless it begins with the colon
  of pathspec magic. -/
  adds_name : ∀ {w : Checkout} {name : String}, w.files.blob name ≠ none →
    ignored w.files name = false → startswith ":" name = false →
    ∃ paths, adds w name = some paths ∧ (name ∈ w.tracked ∨ name ∈ paths)

/-- **The commands of git** the worker uses. -/
structure GitCommands extends GitFiles where
  /-- `git diff --no-ext-diff --no-textconv`, unless it is not UTF-8. -/
  diff : Tree → Tree → Option String

/-- No attributes and no ignore files, no renames that are found, and no patch
that applies. -/
def plainFiles : GitFiles where
  renames _ _ := []
  renames_spec h := absurd h List.not_mem_nil
  apply _ _ := none
  ignored _ _ := false
  smudge t := t
  clean _ _ content := content
  adds _ name := some [name]
  adds_name _ _ _ := ⟨_, rfl, .inr (List.mem_singleton_self _)⟩

/-- `git clone` and `git checkout --detach`. -/
def Commit.checkout (git : GitCommands) (base : Commit) : Checkout where
  head := base.sha
  files := git.smudge base.tree
  tracked := base.tree.paths

namespace Checkout

variable (git : GitCommands) (w : Checkout)

/-- The files of the work tree that git tracks, as it would store them. -/
def trackedFiles : Tree := (w.files.restrict (· ∈ w.tracked)).convert (git.clean w)

theorem trackedFiles_blob (path : String) : (w.trackedFiles git).blob path =
    if path ∈ w.tracked then (w.files.blob path).map (Blob.convert (git.clean w path)) else none := by
  by_cases h : path ∈ w.tracked <;> simp [trackedFiles, Tree.restrict, Tree.convert, h]

/-- `git ls-files --others --exclude-standard`. -/
def untracked : List String :=
  w.files.paths.filter fun path => path ∉ w.tracked ∧ ¬ git.ignored w.files path

/-- `git add -N -- <name>`. -/
def intendToAdd (name : String) : Option Checkout :=
  (git.adds w name).map fun paths => { w with tracked := w.tracked ++ paths }

end Checkout

/-! ## How paths are printed -/

/-- A character a path is printed with as it is. -/
def isUsual (c : Char) : Bool := 32 ≤ c.toNat ∧ c.toNat < 127 ∧ c ≠ '"' ∧ c ≠ '\\'

def octal (b : UInt8) : List Char :=
  [Nat.digitChar (b.toNat / 64 % 8), Nat.digitChar (b.toNat / 8 % 8), Nat.digitChar (b.toNat % 8)]

def quoteChar (c : Char) : List Char :=
  if isUsual c then [c]
  else match c with
    | '\x07' => ['\\', 'a']
    | '\x08' => ['\\', 'b']
    | '\t' => ['\\', 't']
    | '\n' => ['\\', 'n']
    | '\x0b' => ['\\', 'v']
    | '\x0c' => ['\\', 'f']
    | '\r' => ['\\', 'r']
    | '"' => ['\\', '"']
    | '\\' => ['\\', '\\']
    | _ => (String.utf8EncodeChar c).flatMap fun b => '\\' :: octal b

/-- A path has a character git quotes it for. -/
def isUnusual (path : String) : Bool := path.toList.any fun c => ¬ isUsual c

/-- A path as git prints it, with `core.quotePath`. -/
def quotePath (path : String) : String :=
  if isUnusual path then .ofList ('"' :: path.toList.flatMap quoteChar ++ ['"']) else path

example : quotePath "src/é\t.py" = "\"src/\\303\\251\\t.py\"" ∧ quotePath "a b.py" = "a b.py" := by
  decide

/-- Whatever the path, what is printed is printable. -/
theorem printable_quoteChar {c d : Char} (hd : d ∈ quoteChar c) : 32 ≤ d.toNat ∧ d.toNat < 127 := by
  have hoctal : ∀ n < 8, 32 ≤ (Nat.digitChar n).toNat ∧ (Nat.digitChar n).toNat < 127 := by decide
  unfold quoteChar at hd
  split at hd
  · rename_i husual
    obtain rfl := List.mem_singleton.mp hd
    simp only [isUsual, decide_eq_true_eq] at husual
    exact ⟨husual.1, husual.2.1⟩
  · split at hd
    on_goal 10 =>
      obtain ⟨b, -, hd⟩ := List.mem_flatMap.mp hd
      simp only [octal, List.mem_cons, List.not_mem_nil, or_false] at hd
      rcases hd with rfl | rfl | rfl | rfl
      · decide
      all_goals exact hoctal _ (Nat.mod_lt _ (by decide))
    all_goals
      rcases List.mem_pair.mp hd with rfl | rfl <;> decide

theorem printable_quotePath {path : String} {d : Char} (hd : d ∈ (quotePath path).toList) :
    32 ≤ d.toNat ∧ d.toNat < 127 := by
  unfold quotePath at hd
  split at hd
  · rw [String.toList_ofList] at hd
    rcases List.mem_cons.mp hd with rfl | hd
    · decide
    · rcases List.mem_append.mp hd with hd | hd
      · obtain ⟨c, -, hd⟩ := List.mem_flatMap.mp hd
        exact printable_quoteChar hd
      · obtain rfl := List.mem_singleton.mp hd
        decide
  · rename_i husual
    simp only [isUnusual, List.any_eq_true, not_exists, not_and, decide_eq_true_eq,
      not_not] at husual
    have hc := husual d hd
    simp only [isUsual, decide_eq_true_eq] at hc
    exact ⟨hc.1, hc.2.1⟩

theorem quotePath_of_usual {path : String} (h : isUnusual path = false) : quotePath path = path := by
  unfold quotePath
  rw [h, if_neg (by simp)]

namespace GitCommands

variable (git : GitCommands)

/-- The names `git diff --name-only <commit>` lists: a file that was renamed
by its new name only. -/
def changedNames (base : Commit) (w : Checkout) : List String :=
  ((base.tree.changed (w.trackedFiles git)).filter fun path =>
    path ∉ (git.renames base.tree (w.trackedFiles git)).map Prod.fst).insertionSort (· ≤ ·)

/-- What `git diff --name-only <commit>` prints. -/
def nameOnly (base : Commit) (w : Checkout) : String :=
  .ofList ((git.changedNames base w).flatMap fun path => (quotePath path).toList ++ ['\n'])

variable {git} {base : Commit} {w : Checkout}

theorem mem_changedNames {path : String} : path ∈ git.changedNames base w ↔
    base.tree.blob path ≠ (w.trackedFiles git).blob path ∧
      ∀ new, (path, new) ∉ git.renames base.tree (w.trackedFiles git) := by
  unfold changedNames
  rw [List.mem_insertionSort, List.mem_filter, Tree.mem_changed, decide_eq_true_eq]
  simp

/-- **Each name is a line of its own.** -/
theorem splitlines_nameOnly :
    splitlines (git.nameOnly base w) = (git.changedNames base w).map quotePath := by
  have hprintable : ∀ line ∈ (git.changedNames base w).map quotePath, ∀ c ∈ line.toList,
      isLineBoundary c = false := by
    intro line hline c hc
    obtain ⟨path, -, rfl⟩ := List.mem_map.mp hline
    obtain ⟨hlo, hhi⟩ := printable_quotePath hc
    exact isLineBoundary_of_printable hlo hhi
  have hlines := splitlines_join hprintable
  rw [List.flatMap_map] at hlines
  exact hlines

end GitCommands

/-! ## `capture_patch` -/

/-- The parts of a path that make it one of a cache. -/
def cacheParts : List String := ["__pycache__", ".pytest_cache", ".venv", "node_modules"]

/-- A path of a generated cache. -/
def isCachePath (path : String) : Bool :=
  (pathParts path).any (· ∈ cacheParts) || (isSuffix ".pyc" (pathName path))
where
  /-- The suffix of a file name that is more than a suffix. -/
  isSuffix (suffix name : String) : Bool :=
    suffix.toList <:+ name.toList ∧ suffix.length < name.length

namespace Checkout

variable (git : GitCommands) (base : Commit) (w : Checkout)

def isSymlink (path : String) : Bool :=
  match w.files.blob path with
  | some blob => blob.mode = .symlink
  | none => false

/-- Adds the new files to the index, one after another. A path git lists as
untracked does not lead out of the repository, as git follows no symlink. -/
def addUntracked (w : Checkout) : List String → Except String Checkout
  | [] => .ok w
  | name :: names =>
    if isCachePath name then addUntracked w names
    else if w.isSymlink name then .error "New symlink patches are not supported"
    else match w.intendToAdd git name with
      | none => .error "CalledProcessError"
      | some w => addUntracked w names

/-- The diff is that of text files. -/
def isText (patch : String) : Bool :=
  ¬ contains "GIT binary patch" patch ∧ ¬ contains "\nBinary files " patch ∧
    ¬ contains "Subproject commit" patch

/-- `capture_patch`: the patch, and the work tree with the index it leaves. -/
def capturePatch : Except String (String × Checkout) := do
  require (w.head = base.sha) "Working tree Git baseline changed"
  let w ← addUntracked git w (w.untracked git)
  require (¬ (git.changedNames base w).any w.isSymlink) "Changed symlink patches are not supported"
  let patch ← orThrow (git.diff base.tree (w.trackedFiles git)) "UnicodeDecodeError"
  require (isText patch) "Binary and submodule patches are not supported"
  return (patch, w)

/-- The new files a patch is to show. -/
def newFiles : List String := (w.untracked git).filter fun path => ¬ isCachePath path

/-- The index after some names are added, of which each could be. -/
def addNames (names : List String) : Checkout :=
  names.foldl (fun w name => (w.intendToAdd git name).getD w) w

/-- The index `capture_patch` leaves. -/
def captured : Checkout := w.addNames git (w.newFiles git)

variable {git base w}

theorem intendToAdd_eq_some {name : String} {w' : Checkout} : w.intendToAdd git name = some w' ↔
    ∃ paths, git.adds w name = some paths ∧ w' = { w with tracked := w.tracked ++ paths } := by
  unfold intendToAdd
  rw [Option.map_eq_some_iff]
  simp only [eq_comm]

/-- Adding a name leaves the files, and what is tracked. -/
theorem getD_intendToAdd (git : GitCommands) (w : Checkout) (name : String) :
    ∃ paths, (w.intendToAdd git name).getD w = { w with tracked := w.tracked ++ paths } := by
  unfold intendToAdd
  cases git.adds w name with
  | none => exact ⟨[], by simp⟩
  | some paths => exact ⟨paths, rfl⟩

theorem addNames_files (names : List String) : (w.addNames git names).files = w.files := by
  induction names generalizing w with
  | nil => rfl
  | cons name names ih =>
    obtain ⟨paths, heq⟩ := getD_intendToAdd git w name
    rw [addNames, List.foldl_cons, heq]
    exact ih

@[simp]
theorem captured_files : (w.captured git).files = w.files := addNames_files _

theorem tracked_addNames {path : String} (h : path ∈ w.tracked) (names : List String) :
    path ∈ (w.addNames git names).tracked := by
  induction names generalizing w with
  | nil => exact h
  | cons name names ih =>
    obtain ⟨paths, heq⟩ := getD_intendToAdd git w name
    rw [addNames, List.foldl_cons, heq]
    exact ih (List.mem_append_left _ h)

/-- A new file that is added by its name is tracked. -/
theorem mem_addNames {names : List String} {name : String} (hname : name ∈ names)
    (hfile : w.files.blob name ≠ none) (hignored : git.ignored w.files name = false)
    (hcolon : startswith ":" name = false) : name ∈ (w.addNames git names).tracked := by
  induction names generalizing w with
  | nil => exact absurd hname List.not_mem_nil
  | cons first names ih =>
    rcases List.mem_cons.mp hname with rfl | hname
    · obtain ⟨paths, hpaths, htracked⟩ := git.adds_name hfile hignored hcolon
      have hadded : w.intendToAdd git name = some { w with tracked := w.tracked ++ paths } :=
        intendToAdd_eq_some.mpr ⟨paths, hpaths, rfl⟩
      rw [addNames, List.foldl_cons, hadded]
      exact tracked_addNames (List.mem_append.mpr htracked) names
    · obtain ⟨paths, heq⟩ := getD_intendToAdd git w first
      rw [addNames, List.foldl_cons, heq]
      exact ih hname hfile hignored

theorem addUntracked_ok {names : List String} {w' : Checkout}
    (h : addUntracked git w names = .ok w') :
    w' = w.addNames git (names.filter fun path => ¬ isCachePath path) := by
  induction names generalizing w with
  | nil => exact (Except.ok.inj h).symm
  | cons name names ih =>
    unfold addUntracked at h
    split at h
    · rename_i hcache
      rw [ih h, List.filter_cons_of_neg (by simp [hcache])]
    · rename_i hcache
      rw [List.filter_cons_of_pos (by simp [hcache])]
      split at h
      · exact absurd h (by simp)
      · split at h
        · exact absurd h (by simp)
        · rename_i added hadded
          rw [ih h, addNames, addNames, List.foldl_cons, hadded, Option.getD_some]

/-- What a captured patch is: the diff of the commit and of the files that
are tracked once the new ones are added. -/
theorem capturePatch_ok {patch : String} {w' : Checkout}
    (h : w.capturePatch git base = .ok (patch, w')) :
    w' = w.captured git ∧ git.diff base.tree ((w.captured git).trackedFiles git) = some patch ∧
      isText patch := by
  simp only [capturePatch, bind_eq_ok, require_eq_ok, orThrow_eq_ok, pure_eq_ok] at h
  obtain ⟨-, -, added, hadd, -, -, text, hdiff, -, htext, heq⟩ := h
  obtain ⟨rfl, rfl⟩ := Prod.mk.inj heq
  obtain rfl : added = w.captured git := addUntracked_ok hadd
  exact ⟨rfl, hdiff, htext⟩

end Checkout

end Runtime

end AgentReliability
