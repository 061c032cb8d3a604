import AgentReliability.Runtime.Verifier
/-!
# What the scope and tampering gates see

V2 and V6 judge the lines `git diff --name-only` prints. A path that was
changed is one of them under its own name, unless it was renamed away, is
quoted, is made of blanks, was added where the ignore files exclude it or
under a name that reads as pathspec magic, or is changed in a way that the
conversions of its attributes undo. Of these paths the gates see nothing, or
another name.
-/

namespace AgentReliability

namespace Runtime

open PythonText

variable {git : GitCommands} {base : Commit} {w : Checkout} {path : String}

/-! ## Changes, and those the gates do not see -/

/-- The content of a path differs between the commit and the work tree. An
untracked file of a cache, which the patch leaves out, is not counted. -/
def IsChange (base : Commit) (w : Checkout) (path : String) : Prop :=
  base.tree.blob path ≠ w.files.blob path ∧
    ¬ (base.tree.blob path = none ∧ path ∉ w.tracked ∧ isCachePath path)

/-- A path that is not listed under its own name if it is changed: the old
name of a file that was renamed, a name git quotes, one of blanks only, a new
file that is ignored or whose name begins with a colon, and a file of which
git stores what the commit has. -/
def IsConcealed (git : GitCommands) (base : Commit) (w : Checkout) (path : String) : Prop :=
  (∃ new, (path, new) ∈ git.renames base.tree ((w.captured git).trackedFiles git)) ∨
    isUnusual path ∨ isBlank path ∨
    (base.tree.blob path = none ∧ path ∉ w.tracked ∧
      (git.ignored w.files path ∨ startswith ":" path)) ∨
    base.tree.blob path = (w.files.blob path).map (Blob.convert (git.clean (w.captured git) path))

/-- What V2 and V6 are there to ensure of a path that was changed. -/
def VerifierPipeline.Permits (p : VerifierPipeline) (path : String) : Prop :=
  (∃ pattern ∈ p.spec.allowedPaths, fnmatch path pattern) ∧ isTestFile path = false ∧
    ∀ pattern ∈ p.protectedPaths, fnmatch path pattern = false

/-! ## What is listed -/

/-- Of the files that are not of a cache, a new one that `capture_patch`
leaves untracked is ignored, or is named like pathspec magic. -/
theorem Checkout.mem_captured_tracked (hfile : w.files.blob path ≠ none)
    (hcache : isCachePath path = false) (hignored : git.ignored w.files path = false)
    (hcolon : startswith ":" path = false) : path ∈ (w.captured git).tracked := by
  by_cases htracked : path ∈ w.tracked
  · exact tracked_addNames htracked _
  · refine mem_addNames ?_ hfile hignored hcolon
    simp only [newFiles, untracked, List.mem_filter, w.files.mem_paths, decide_eq_true_eq]
    exact ⟨⟨hfile, htracked, by simp [hignored]⟩, by simp [hcache]⟩

/-- **A change is listed** once the new files are added, or it is
concealed. -/
theorem mem_changedNames_of_isChange (h : IsChange base w path)
    (hshown : ¬ IsConcealed git base w path) : path ∈ git.changedNames base (w.captured git) := by
  obtain ⟨hdiffers, hcache⟩ := h
  obtain ⟨hrename, -, -, hleftOut, hconverted⟩ : (¬ ∃ new, (path, new) ∈ git.renames base.tree
      ((w.captured git).trackedFiles git)) ∧ _ ∧ _ ∧ _ ∧ _ := by
    simpa only [IsConcealed, not_or] using hshown
  refine GitCommands.mem_changedNames.mpr ⟨?_, fun new hnew => hrename ⟨new, hnew⟩⟩
  rw [Checkout.trackedFiles_blob, Checkout.captured_files]
  by_cases htracked : path ∈ (w.captured git).tracked
  · rw [if_pos htracked]
    exact hconverted
  · rw [if_neg htracked]
    intro hnone
    -- The file is new and was left out: the patch leaves out no other.
    have hnew : w.files.blob path ≠ none := fun heq => hdiffers (hnone.trans heq.symm)
    have hindex : path ∉ w.tracked := fun hmem => htracked (Checkout.tracked_addNames hmem _)
    have hnotCache : isCachePath path = false := by
      by_contra hc
      exact hcache ⟨hnone, hindex, by simpa using hc⟩
    obtain ⟨hignored, hcolon⟩ : git.ignored w.files path = false ∧ startswith ":" path = false := by
      constructor
      · by_contra hign
        exact hleftOut ⟨hnone, hindex, .inl (by simpa using hign)⟩
      · by_contra hmagic
        exact hleftOut ⟨hnone, hindex, .inr (by simpa using hmagic)⟩
    exact htracked (Checkout.mem_captured_tracked hnew hnotCache hignored hcolon)

/-- A name that is listed, and neither quoted nor blank, is a line the gates
judge. -/
theorem mem_changedFiles (h : path ∈ git.changedNames base w) (husual : isUnusual path = false)
    (hblank : isBlank path = false) : path ∈ changedFiles git base w := by
  unfold changedFiles
  rw [GitCommands.splitlines_nameOnly, List.mem_filter, decide_eq_true_eq]
  refine ⟨List.mem_map.mpr ⟨path, h, quotePath_of_usual husual⟩, ?_⟩
  simp [hblank]

/-! ## What the gates have judged -/

/-- What passes the gates: every line of the listing. -/
theorem VerifierPipeline.gates_ok {p : VerifierPipeline} {results : List StepResult}
    {patch : String} (h : p.gates git w = .ok (results, patch)) :
    isBlank patch = false ∧ git.diff p.base.tree ((w.captured git).trackedFiles git) = some patch ∧
      ∀ line ∈ changedFiles git p.base (w.captured git), p.Permits line := by
  unfold gates at h
  split at h
  · exact absurd h (by simp)
  · rename_i patch' w' hcapture
    obtain ⟨rfl, hdiff, -⟩ := Checkout.capturePatch_ok hcapture
    split at h
    · exact absurd h (by simp)
    · rename_i hblank
      simp only at h
      split at h
      · exact absurd h (by simp)
      · rename_i hviolations
        split at h
        · exact absurd h (by simp)
        · rename_i htampered
          obtain ⟨-, rfl⟩ := Prod.mk.inj (Except.ok.inj h)
          refine ⟨by simpa using hblank, hdiff, fun line hline => ?_⟩
          rw [not_not, List.filter_eq_nil_iff] at hviolations htampered
          have hallowed : p.isAllowed line := by simpa using hviolations line hline
          have hclean : p.isTampered line = false := by simpa using htampered line hline
          obtain ⟨htest, hprotected⟩ := Bool.or_eq_false_iff.mp hclean
          refine ⟨List.any_eq_true.mp hallowed, htest, fun pattern hpattern => ?_⟩
          simpa using List.any_eq_false.mp hprotected pattern hpattern

/-! ## The result -/

/-- Rename detection, of files that were moved as they are. -/
def movedFiles (t u : Tree) : List (String × String) :=
  (t.paths.filter fun old => u.blob old = none).filterMap fun old =>
    (u.paths.find? fun new => t.blob new = none ∧ u.blob new = t.blob old).map fun new => (old, new)

/-- A git that knows one patch. -/
def plainGit (patch : String) : GitCommands :=
  { plainFiles with
    renames := movedFiles
    renames_spec := by
      intro t u old new h
      obtain ⟨old', hold, hnew⟩ := List.mem_filterMap.mp h
      obtain ⟨new', hfind, heq⟩ := Option.map_eq_some_iff.mp hnew
      obtain ⟨rfl, rfl⟩ := Prod.mk.inj heq
      obtain ⟨hmem, hgone⟩ := List.mem_filter.mp hold
      have hadded := List.find?_some hfind
      simp only [decide_eq_true_eq] at hgone hadded
      exact ⟨(t.mem_paths _).mp hmem, hgone, hadded.1,
        (u.mem_paths _).mp (List.mem_of_find?_eq_some hfind)⟩
    diff := fun _ _ => some patch }

def srcPipeline : VerifierPipeline where
  spec := { workdir := ".", allowedPaths := ["src/**"] }
  base := ⟨"base", oneFile "tests/test_main.py" [97]⟩

/-- The work tree of an agent that has moved the tests to where it may
write. -/
def movedTests : Checkout := ⟨"base", oneFile "src/main.py" [97], ["tests/test_main.py"]⟩

def movePatch : String :=
  "diff --git a/tests/test_main.py b/src/main.py\nsimilarity index 100%\n" ++
    "rename from tests/test_main.py\nrename to src/main.py\n"

def editPipeline : VerifierPipeline :=
  { srcPipeline with base := ⟨"base", oneFile "src/main.py" [97]⟩ }

/-- The work tree of an agent that has edited the one file there is. -/
def editedFile : Checkout := ⟨"base", oneFile "src/main.py" [98], ["src/main.py"]⟩

def editPatch : String :=
  "diff --git a/src/main.py b/src/main.py\nindex 2e65efe..63d8dbd 100644\n" ++
    "--- a/src/main.py\n+++ b/src/main.py\n@@ -1 +1 @@\n" ++
    "-a\n\\ No newline at end of file\n+b\n\\ No newline at end of file\n"

end Runtime

end AgentReliability
