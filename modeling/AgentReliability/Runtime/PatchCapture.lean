import AgentReliability.Runtime.DiffEngine
/-!
# What `capture_patch` refuses

A patch of text cannot have a symlink, a submodule or a binary file, in the
old version or the new one. `capture_patch` looks for symlinks in the work
tree, and for the others in the text of the diff, where git's own words and
the lines of the files stand together. So it misses what the diff does not
show, and mistakes a file that has git's words for what they stand for; a
line that reads like the notice of a binary file is not mistaken for one.

The diff is of what `git add` has made of the names of the new files, and of
what git would store of the files. It is the diff of the files where the
names are added as they are read, and no attribute converts a content.
-/

namespace AgentReliability

namespace Runtime

open PythonText GitDiff Utf8

/-! ## When a patch is returned -/

namespace Checkout

variable {git : GitCommands} {base : Commit} {w : Checkout}

theorem isSymlink_congr {w' : Checkout} (h : w'.files = w.files) : w'.isSymlink = w.isSymlink := by
  funext path
  rw [isSymlink, h]
  rfl

theorem isSymlink_captured : (w.captured git).isSymlink = w.isSymlink :=
  isSymlink_congr captured_files

/-- `git add` takes each of the names, when those before it are added. -/
def AddsAll (git : GitCommands) (w : Checkout) (names : List String) : Prop :=
  ∀ before name after, names = before ++ name :: after →
    git.adds (w.addNames git before) name ≠ none

theorem addsAll_cons {name : String} {names : List String} : AddsAll git w (name :: names) ↔
    ∃ w', w.intendToAdd git name = some w' ∧ AddsAll git w' names := by
  have hnext {w' : Checkout} (hadded : w.intendToAdd git name = some w') (before : List String) :
      w.addNames git (name :: before) = w'.addNames git before := by
    rw [addNames, List.foldl_cons, hadded]
    rfl
  constructor
  · intro h
    obtain ⟨paths, hpaths⟩ := Option.ne_none_iff_exists'.mp (h [] name names rfl)
    have hadded := intendToAdd_eq_some.mpr ⟨paths, hpaths, rfl⟩
    refine ⟨_, hadded, fun before other after hsplit => ?_⟩
    rw [← hnext hadded]
    exact h (name :: before) other after (by rw [hsplit]; rfl)
  · rintro ⟨w', hadded, h⟩ before other after hsplit
    cases before with
    | nil =>
      obtain ⟨rfl, -⟩ := List.cons.inj hsplit
      obtain ⟨paths, hpaths, -⟩ := intendToAdd_eq_some.mp hadded
      exact Option.ne_none_iff_exists'.mpr ⟨paths, hpaths⟩
    | cons first before =>
      obtain ⟨rfl, hrest⟩ := List.cons.inj hsplit
      rw [hnext hadded]
      exact h before other after hrest

/-- When all names are added: of the new ones none is a symlink, and git
takes each of them. -/
theorem addUntracked_isOk {names : List String} : (∃ w', addUntracked git w names = .ok w') ↔
    (∀ name ∈ names.filter fun path => ¬ isCachePath path, w.isSymlink name = false) ∧
      AddsAll git w (names.filter fun path => ¬ isCachePath path) := by
  induction names generalizing w with
  | nil =>
    refine ⟨fun _ => ⟨fun name hname => absurd hname List.not_mem_nil, ?_⟩, fun _ => ⟨w, rfl⟩⟩
    exact fun before name after hsplit => absurd hsplit (by simp)
  | cons name names ih =>
    unfold addUntracked
    cases hcache : isCachePath name with
    | true => rw [if_pos rfl, ih, List.filter_cons_of_neg (by simp [hcache])]
    | false =>
      rw [if_neg (by simp), List.filter_cons_of_pos (by simp [hcache]), List.forall_mem_cons,
        addsAll_cons]
      cases hlink : w.isSymlink name with
      | true => simp
      | false =>
        rw [if_neg (by simp)]
        cases hadded : w.intendToAdd git name with
        | none => simp
        | some w' =>
          obtain ⟨paths, -, hw'⟩ := intendToAdd_eq_some.mp hadded
          have hfiles : w'.isSymlink = w.isSymlink := isSymlink_congr (by rw [hw'])
          have hrest := ih (w := w')
          rw [hfiles] at hrest
          simp only [hrest, Option.some.injEq, exists_eq_left', true_and]

/-- **When `capture_patch` returns.** -/
theorem capturePatch_ok_iff {patch : String} {w' : Checkout} :
    w.capturePatch git base = .ok (patch, w') ↔ w.head = base.sha ∧
      (∀ name ∈ w.newFiles git, w.isSymlink name = false) ∧ AddsAll git w (w.newFiles git) ∧
      (∀ name ∈ git.changedNames base (w.captured git), w.isSymlink name = false) ∧
      git.diff base.tree ((w.captured git).trackedFiles git) = some patch ∧ isText patch ∧
      w' = w.captured git := by
  constructor
  · intro h
    obtain ⟨rfl, hdiff, htext⟩ := capturePatch_ok h
    simp only [capturePatch, bind_eq_ok, require_eq_ok, orThrow_eq_ok, pure_eq_ok] at h
    obtain ⟨-, hhead, added, hadd, -, hnames, -⟩ := h
    obtain ⟨hlinks, hadds⟩ := addUntracked_isOk.mp ⟨added, hadd⟩
    obtain rfl : added = w.captured git := addUntracked_ok hadd
    refine ⟨hhead, hlinks, hadds, fun name hname => ?_, hdiff, htext, rfl⟩
    by_contra hlink
    refine hnames (List.any_eq_true.mpr ⟨name, hname, ?_⟩)
    rwa [isSymlink_captured, ← Bool.not_eq_false]
  · rintro ⟨hhead, hlinks, hadds, hnames, hdiff, htext, rfl⟩
    obtain ⟨added, hadd⟩ := addUntracked_isOk.mpr ⟨hlinks, hadds⟩
    obtain rfl : added = w.captured git := addUntracked_ok hadd
    have hany : ¬ ((git.changedNames base (w.captured git)).any
        (w.captured git).isSymlink) = true := by
      rw [List.any_eq_true, isSymlink_captured]
      rintro ⟨name, hname, hlink⟩
      exact absurd hlink (by simp [hnames name hname])
    simp only [capturePatch, bind_eq_ok, require_eq_ok, orThrow_eq_ok, pure_eq_ok]
    exact ⟨(), hhead, _, hadd, (), hany, patch, hdiff, (), htext, rfl⟩

end Checkout

/-! ## What is refused -/

section Refusal

variable (e : DiffEngine) (base : Commit) (w : Checkout)

/-- A version of a file that a patch of text cannot have. -/
def IsUnsupported (path : String) (b : Blob) : Prop :=
  b.mode = .symlink ∨ b.mode = .submodule ∨ e.isBinary path (some b) ∨ ¬ IsUtf8 b.content

/-- The files a patch is to be of: those that are tracked, and the new ones. -/
def patchTree : Tree :=
  w.files.restrict fun path => path ∈ w.tracked ∨ path ∈ w.newFiles e.toGit

/-- What git compares with the commit: the files that are tracked once the new
names are added, as git would store them. -/
def resultTree : Tree := (w.captured e.toGit).trackedFiles e.toGit

/-- A path that changed has such a version. -/
def HasUnsupported : Prop :=
  ∃ path ∈ base.tree.changed (patchTree e w),
    (∃ b ∈ base.tree.blob path, IsUnsupported e path b) ∨
      ∃ b ∈ (patchTree e w).blob path, IsUnsupported e path b

/-- `capture_patch` raises. -/
def Refuses : Prop := ∃ message, w.capturePatch e.toGit base = .error message

/-- **Exactly the changes are refused that a patch of text cannot have,** and
of the others the full diff is returned: that of all the files, compared as
they are. -/
def CapturesRight : Prop :=
  (Refuses e base w ↔ HasUnsupported e base w) ∧
    (¬ HasUnsupported e base w → ∃ patch,
      w.capturePatch e.toGit base = .ok (patch, w.captured e.toGit) ∧
        resultTree e w = patchTree e w ∧
        encode patch.toList = e.diff base.tree (patchTree e w))

/-- **Git compares the files as they are.** -/
structure ComparesFiles : Prop where
  /-- What `git add` makes of the new names are these files, and no others. -/
  index : ∀ path, w.files.blob path ≠ none →
    (path ∈ (w.captured e.toGit).tracked ↔ path ∈ w.tracked ∨ path ∈ w.newFiles e.toGit)
  /-- No attribute converts the content of one of them. -/
  content : ∀ path ∈ (w.captured e.toGit).tracked, ∀ b ∈ w.files.blob path,
    b.convert (e.clean (w.captured e.toGit) path) = b

/-- The words `capture_patch` searches for anywhere in a diff. -/
def phrases : List String := ["GIT binary patch", "Subproject commit"]

/-- **An unsupported version that is shown.** -/
inductive IsShown (p : FilePair) : Prop
  /-- The new version is a symlink. -/
  | symlink {b : Blob} (hnew : b ∈ p.new) (hmode : b.mode = .symlink)
  /-- The content of a binary file changed. -/
  | binary (hne : contentOf p.old ≠ contentOf p.new)
      (hbinary : e.isBinary p.oldPath p.old ∨ e.isBinary p.newPath p.new)
  /-- A submodule was added or deleted, or is at another commit or changed. -/
  | submodule {b : Blob} (hne : contentOf p.old ≠ contentOf p.new)
      (hversion : b ∈ p.old ∨ b ∈ p.new) (hmode : b.mode = .submodule)
  /-- A line is shown that is not text. -/
  | line {hunks : List (Hunk UInt8)} {h : Hunk UInt8} {l : HunkLine UInt8}
      (hbody : e.body p = .text hunks) (hhunk : h ∈ hunks) (hline : l ∈ h.lines)
      (hbytes : ¬ IsUtf8 l.content)

/-- **An unsupported version that is seen:** a new symlink, or one that the
diff shows. -/
inductive IsSeen : Prop
  | newLink {path : String} (hpath : path ∈ w.newFiles e.toGit) (hlink : w.isSymlink path)
      (hne : base.tree.blob path ≠ w.files.blob path)
  | shown {p : FilePair} (hp : p ∈ e.compared base.tree (resultTree e w)) (hshown : IsShown e p)

/-- **What is taken for an unsupported version,** and need not be one. -/
inductive IsMistaken : Prop
  /-- A symlink that is not tracked any more, but is as it was. -/
  | untracked {path : String} (hpath : path ∈ w.newFiles e.toGit) (hlink : w.isSymlink path)
      (hsame : base.tree.blob path = w.files.blob path)
  /-- The name of a new file that `git add` fails on. -/
  | name (hname : ¬ w.AddsAll e.toGit (w.newFiles e.toGit))
  /-- A symlink that is left out, where a file was tracked. -/
  | leftOut {path : String} (hpath : path ∈ e.names base.tree (resultTree e w))
      (hlink : w.isSymlink path) (htracked : path ∉ (w.captured e.toGit).tracked)
  /-- The heading of a hunk that is cut within a character. -/
  | heading {p : FilePair} {hunks : List (Hunk UInt8)} {h : Hunk UInt8}
      (hp : p ∈ e.compared base.tree (resultTree e w)) (hbody : e.body p = .text hunks)
      (hhunk : h ∈ hunks) (hbytes : ¬ IsUtf8 h.heading)
  /-- One of the phrases, in a path, a heading or a line of a file. -/
  | phrase {line : List UInt8} {phrase : String}
      (hline : line ∈ e.printed base.tree (resultTree e w)) (hphrase : phrase ∈ phrases)
      (hfound : phrase.toList.map ascii <:+: line)

end Refusal

section

variable {e : DiffEngine} {base : Commit} {w : Checkout}

theorem contains_iff {phrase patch : String} {bytes : List UInt8}
    (hpatch : encode patch.toList = bytes) (hphrase : IsAscii phrase.toList) :
    contains phrase patch ↔ phrase.toList.map ascii <:+: bytes := by
  rw [← hpatch, infix_encode_iff hphrase, contains, decide_eq_true_eq]

/-- **The diff is of text files, for `capture_patch`,** if no line has one of
the phrases and no file is shown to be binary. -/
theorem isText_iff {t u : Tree} {patch : String} (hpatch : encode patch.toList = e.diff t u) :
    Checkout.isText patch ↔
      (∀ phrase ∈ phrases, ∀ line ∈ e.printed t u, ¬ phrase.toList.map ascii <:+: line) ∧
        ∀ p ∈ e.compared t u, e.body p ≠ .binary := by
  have hphrases : ∀ phrase ∈ phrases, IsAscii phrase.toList ∧
      ascii '\n' ∉ phrase.toList.map ascii ∧ phrase.toList.map ascii ≠ [] := by decide
  have hfound (phrase : String) (hphrase : phrase ∈ phrases) : contains phrase patch ↔
      ∃ line ∈ e.printed t u, phrase.toList.map ascii <:+: line := by
    obtain ⟨hascii, hfeed, hne⟩ := hphrases phrase hphrase
    rw [contains_iff hpatch hascii, e.diff_eq, TextLines.infix_lines_iff hfeed hne]
  have hnotice : contains "\nBinary files " patch ↔ ∃ p ∈ e.compared t u, e.body p = .binary := by
    rw [contains_iff hpatch (by decide), e.diff_eq, ← DiffEngine.notice_tail_iff]
    exact TextLines.feed_infix_lines_iff (by decide) (by decide) DiffEngine.feed_of_mem_printed
  have hgit := hfound "GIT binary patch" (by decide)
  have hsubproject := hfound "Subproject commit" (by decide)
  rw [Checkout.isText, decide_eq_true_eq, hgit, hnotice, hsubproject]
  simp only [phrases, List.forall_mem_cons, not_exists, not_and]
  constructor
  · rintro ⟨hnone, hbinary, hnone'⟩
    exact ⟨⟨hnone, hnone', by simp⟩, hbinary⟩
  · rintro ⟨⟨hnone, hnone', -⟩, hbinary⟩
    exact ⟨hnone, hbinary, hnone'⟩

theorem refuses_iff_not_ok : Refuses e base w ↔
    ¬ ∃ patch w', w.capturePatch e.toGit base = .ok (patch, w') := by
  unfold Refuses
  cases w.capturePatch e.toGit base with
  | error message => simp
  | ok result => simp [Prod.exists.mp ⟨result, rfl⟩]

/-- **When nothing is refused,** where the baseline is the same. -/
theorem not_refuses_iff (hhead : w.head = base.sha) : ¬ Refuses e base w ↔
    (∀ name ∈ w.newFiles e.toGit, w.isSymlink name = false) ∧
      w.AddsAll e.toGit (w.newFiles e.toGit) ∧
      (∀ name ∈ e.names base.tree (resultTree e w), w.isSymlink name = false) ∧
      (∀ line ∈ e.printed base.tree (resultTree e w), IsUtf8 line) ∧
      (∀ phrase ∈ phrases, ∀ line ∈ e.printed base.tree (resultTree e w),
        ¬ phrase.toList.map ascii <:+: line) ∧
      ∀ p ∈ e.compared base.tree (resultTree e w), e.body p ≠ .binary := by
  rw [refuses_iff_not_ok, not_not]
  constructor
  · rintro ⟨patch, w', h⟩
    obtain ⟨-, hlinks, hadds, hnames, hdiff, htext, -⟩ := Checkout.capturePatch_ok_iff.mp h
    rw [DiffEngine.diff_toGit, decode_eq_some_iff] at hdiff
    have hpatch : encode patch.toList = e.diff base.tree (resultTree e w) := hdiff
    have hutf8 : IsUtf8 (e.diff base.tree (resultTree e w)) := ⟨patch.toList, hpatch⟩
    rw [e.diff_eq, isUtf8_lines] at hutf8
    exact ⟨hlinks, hadds, hnames, hutf8, (isText_iff hpatch).mp htext⟩
  · rintro ⟨hlinks, hadds, hnames, hutf8, htext⟩
    rw [← isUtf8_lines, ← e.diff_eq, isUtf8_iff_decode] at hutf8
    obtain ⟨patch, hdiff⟩ := hutf8
    have hpatch := (isText_iff (decode_eq_some_iff.mp hdiff)).mpr htext
    exact ⟨patch, w.captured e.toGit, Checkout.capturePatch_ok_iff.mpr
      ⟨hhead, hlinks, hadds, hnames, hdiff, hpatch, rfl⟩⟩

/-! ## The versions that are shown -/

theorem patchTree_blob (path : String) : (patchTree e w).blob path =
    if path ∈ w.tracked ∨ path ∈ w.newFiles e.toGit then w.files.blob path else none := by
  simp [patchTree, Tree.restrict]

theorem resultTree_blob (path : String) : (resultTree e w).blob path =
    if path ∈ (w.captured e.toGit).tracked then
      (w.files.blob path).map (Blob.convert (e.clean (w.captured e.toGit) path)) else none := by
  rw [resultTree, Checkout.trackedFiles_blob, Checkout.captured_files]
  rfl

/-- **When git compares the files as they are.** -/
theorem resultTree_eq_iff : resultTree e w = patchTree e w ↔ ComparesFiles e w := by
  constructor
  · intro h
    have hblob : ∀ path, (resultTree e w).blob path = (patchTree e w).blob path := by simp [h]
    simp only [resultTree_blob, patchTree_blob] at hblob
    refine ⟨fun path hfile => ?_, fun path htracked b hb => ?_⟩
    · have hpath := hblob path
      constructor
      · intro htracked
        by_contra hleft
        rw [if_pos htracked, if_neg hleft, Option.map_eq_none_iff] at hpath
        exact hfile hpath
      · intro hpatch
        by_contra htracked
        rw [if_neg htracked, if_pos hpatch] at hpath
        exact hfile hpath.symm
    · have hpath := hblob path
      rw [if_pos htracked, Option.mem_def.mp hb] at hpath
      split at hpath
      · exact Option.some.inj hpath
      · exact absurd hpath (by simp)
  · intro h
    refine Tree.ext_blob fun path => ?_
    rw [resultTree_blob, patchTree_blob]
    cases hfile : w.files.blob path with
    | none => simp
    | some b =>
      have hindex := h.index path (by simp [hfile])
      by_cases htracked : path ∈ (w.captured e.toGit).tracked
      · rw [if_pos htracked, if_pos (hindex.mp htracked), Option.map_some,
          h.content path htracked b hfile]
      · rw [if_neg htracked, if_neg (mt hindex.mpr htracked)]

/-- A listed path that is a symlink is one in the new version, or was left
out. -/
theorem isSymlink_of_new {path : String} {b : Blob} (hb : (resultTree e w).blob path = some b)
    (hmode : b.mode = .symlink) : w.isSymlink path := by
  rw [resultTree_blob] at hb
  split at hb
  · obtain ⟨b', hb', rfl⟩ := Option.map_eq_some_iff.mp hb
    rw [Blob.convert_mode] at hmode
    simp [Checkout.isSymlink, hb', hmode]
  · exact absurd hb (by simp)

theorem exists_new_of_isSymlink {path : String} (hlink : w.isSymlink path)
    (htracked : path ∈ (w.captured e.toGit).tracked) :
    ∃ b, (resultTree e w).blob path = some b ∧ b.mode = .symlink := by
  rw [resultTree_blob, if_pos htracked]
  unfold Checkout.isSymlink at hlink
  split at hlink
  · rename_i b hblob
    have hmode : b.mode = .symlink := by simpa using hlink
    exact ⟨b, by rw [hblob, Option.map_some, Blob.convert_of_symlink hmode], hmode⟩
  · exact absurd hlink (by simp)

/-- A symlink that is listed in its new version is compared. -/
theorem isShown_of_listed {path : String} (hpath : path ∈ e.names base.tree (resultTree e w))
    {b : Blob} (hb : (resultTree e w).blob path = some b) (hmode : b.mode = .symlink) :
    ∃ p ∈ e.compared base.tree (resultTree e w), IsShown e p := by
  obtain ⟨-, hnew, -, -⟩ := DiffEngine.pairOf_spec hpath
  obtain ⟨p, hp, hnew'⟩ := FilePair.exists_part_new (e.pairOf base.tree (resultTree e w) path)
  exact ⟨p, List.mem_flatMap.mpr ⟨path, hpath, hp⟩, .symlink (by rw [hnew', hnew]; exact hb) hmode⟩

theorem body_eq_binary_iff {p : FilePair} : e.body p = .binary ↔
    contentOf p.old ≠ contentOf p.new ∧
      (e.isBinary p.oldPath p.old ∨ e.isBinary p.newPath p.new) := by
  rw [DiffEngine.body, ← Bool.or_eq_true]
  split
  · rename_i hsame
    simp [hsame]
  · rename_i hne
    split
    · rename_i hbinary
      exact ⟨fun _ => ⟨hne, hbinary⟩, fun _ => rfl⟩
    · rename_i hbinary
      exact ⟨fun h => absurd h (by simp), fun h => absurd h.2 hbinary⟩

/-- **What is refused:** an unsupported version that is seen, or what is
taken for one. -/
theorem refuses_iff (hhead : w.head = base.sha) : Refuses e base w ↔
    IsSeen e base w ∨ IsMistaken e base w := by
  rw [← not_iff_not, not_refuses_iff hhead, not_or]
  constructor
  · rintro ⟨hlinks, hadds, hnames, hutf8, hphrases, hbinary⟩
    rw [DiffEngine.isUtf8_printed_iff] at hutf8
    constructor
    · rintro (⟨hpath, hlink, -⟩ | ⟨hp, hshown⟩)
      · exact absurd hlink (by simp [hlinks _ hpath])
      · obtain ⟨hlisted, hnewBlob, -⟩ := DiffEngine.mem_compared hp
        cases hshown with
        | symlink hnew hmode =>
          have hlink := isSymlink_of_new (hnewBlob _ hnew) hmode
          exact absurd hlink (by simp [hnames _ hlisted])
        | binary hne h => exact hbinary _ hp (body_eq_binary_iff.mpr ⟨hne, h⟩)
        | submodule hne hversion hmode =>
          obtain ⟨line, hline, hfound⟩ := DiffEngine.exists_submodule_line hp hne hversion hmode
          exact hphrases "Subproject commit" (by decide) line hline hfound
        | line hbody hhunk hline hbytes =>
          exact hbytes ((hutf8 _ hp _ hbody _ hhunk).2 _ hline)
    · intro hmistaken
      cases hmistaken with
      | untracked hpath hlink => exact absurd hlink (by simp [hlinks _ hpath])
      | name hname => exact hname hadds
      | leftOut hpath hlink => exact absurd hlink (by simp [hnames _ hpath])
      | heading hp hbody hhunk hbytes => exact hbytes (hutf8 _ hp _ hbody _ hhunk).1
      | phrase hline hphrase hfound => exact hphrases _ hphrase _ hline hfound
  · rintro ⟨hseen, hmistaken⟩
    -- A listed symlink is compared, unless it was left out of what is tracked.
    have hlisted (path : String) (hpath : path ∈ e.names base.tree (resultTree e w)) :
        w.isSymlink path = false := by
      by_contra hlink
      rw [Bool.not_eq_false] at hlink
      by_cases htracked : path ∈ (w.captured e.toGit).tracked
      · obtain ⟨b, hb, hmode⟩ := exists_new_of_isSymlink hlink htracked
        obtain ⟨p, hp, hshown⟩ := isShown_of_listed hpath hb hmode
        exact hseen (.shown hp hshown)
      · exact hmistaken (.leftOut hpath hlink htracked)
    refine ⟨fun path hpath => ?_, not_not.mp fun hname => hmistaken (.name hname), hlisted, ?_,
      fun phrase hphrase line hline hfound => hmistaken (.phrase hline hphrase hfound),
      fun p hp hbody => ?_⟩
    · by_contra hlink
      rw [Bool.not_eq_false] at hlink
      by_cases hsame : base.tree.blob path = w.files.blob path
      · exact hmistaken (.untracked hpath hlink hsame)
      · exact hseen (.newLink hpath hlink hsame)
    · rw [DiffEngine.isUtf8_printed_iff]
      intro p hp hunks hbody h hh
      constructor
      · by_contra hbytes
        exact hmistaken (.heading hp hbody hh hbytes)
      · intro l hl
        by_contra hbytes
        exact hseen (.shown hp (.line hbody hh hl hbytes))
    · obtain ⟨hne, hbinary⟩ := body_eq_binary_iff.mp hbody
      exact hseen (.shown hp (.binary hne hbinary))

/-- A version that is compared is one of a path that changed. -/
theorem hasUnsupported_of_version {p : FilePair} (hfiles : resultTree e w = patchTree e w)
    (hp : p ∈ e.compared base.tree (resultTree e w)) {b : Blob}
    (hb : (b ∈ p.old ∧ IsUnsupported e p.oldPath b) ∨ (b ∈ p.new ∧ IsUnsupported e p.newPath b)) :
    HasUnsupported e base w := by
  unfold HasUnsupported
  rw [← hfiles]
  obtain ⟨hlisted, hnewBlob, holdBlob⟩ := DiffEngine.mem_compared hp
  rcases hb with ⟨hold, hb⟩ | ⟨hnew, hb⟩
  · obtain ⟨hblob, hchanged⟩ := holdBlob b hold
    exact ⟨p.oldPath, Tree.mem_changed.mpr hchanged, .inl ⟨b, hblob, hb⟩⟩
  · exact ⟨p.newPath, Tree.mem_changed.mpr (DiffEngine.mem_names.mp hlisted).1,
      .inr ⟨b, hnewBlob b hnew, hb⟩⟩

theorem isUnsupported_of_isBinary {path : String} {v : Option Blob} (h : e.isBinary path v) :
    ∃ b ∈ v, IsUnsupported e path b := by
  cases v with
  | none => exact absurd h (by simp [DiffEngine.isBinary])
  | some b => exact ⟨b, rfl, .inr (.inr (.inl h))⟩

/-- A line that is not text is one of a file that is not. -/
theorem isUnsupported_of_line {path : String} {v : Option Blob} {line : List UInt8}
    (hline : line ∈ TextLines.split (ascii '\n') (contentOf v)) (hbytes : ¬ IsUtf8 line) :
    ∃ b ∈ v, IsUnsupported e path b := by
  cases v with
  | none => exact absurd hline List.not_mem_nil
  | some b =>
    refine ⟨b, rfl, ?_⟩
    by_cases hmode : b.mode = .submodule
    · exact .inr (.inl hmode)
    · have hcontent : contentOf (some b) = b.content := if_neg hmode
      rw [hcontent] at hline
      exact .inr (.inr (.inr fun htext => hbytes (isUtf8_of_mem_split htext hline)))

theorem hasUnsupported_of_shown {p : FilePair} (hfiles : resultTree e w = patchTree e w)
    (hp : p ∈ e.compared base.tree (resultTree e w)) (hshown : IsShown e p) :
    HasUnsupported e base w := by
  cases hshown with
  | symlink hnew hmode => exact hasUnsupported_of_version hfiles hp (.inr ⟨hnew, .inl hmode⟩)
  | binary _ hbinary =>
    rcases hbinary with hbinary | hbinary
    · obtain ⟨b, hb, hunsupported⟩ := isUnsupported_of_isBinary hbinary
      exact hasUnsupported_of_version hfiles hp (.inl ⟨hb, hunsupported⟩)
    · obtain ⟨b, hb, hunsupported⟩ := isUnsupported_of_isBinary hbinary
      exact hasUnsupported_of_version hfiles hp (.inr ⟨hb, hunsupported⟩)
  | submodule _ hversion hmode =>
    exact hasUnsupported_of_version hfiles hp
      (hversion.imp (fun hold => ⟨hold, .inr (.inl hmode)⟩) fun hnew => ⟨hnew, .inr (.inl hmode)⟩)
  | line hbody hhunk hline hbytes =>
    rcases DiffEngine.mem_split_of_shown hbody hhunk hline with hmem | hmem
    · obtain ⟨b, hb, hunsupported⟩ := isUnsupported_of_line hmem hbytes
      exact hasUnsupported_of_version hfiles hp (.inl ⟨hb, hunsupported⟩)
    · obtain ⟨b, hb, hunsupported⟩ := isUnsupported_of_line hmem hbytes
      exact hasUnsupported_of_version hfiles hp (.inr ⟨hb, hunsupported⟩)

theorem hasUnsupported_of_newLink {path : String} (hpath : path ∈ w.newFiles e.toGit)
    (hlink : w.isSymlink path) (hne : base.tree.blob path ≠ w.files.blob path) :
    HasUnsupported e base w := by
  have hblob : (patchTree e w).blob path = w.files.blob path := by
    rw [patchTree_blob, if_pos (.inr hpath)]
  refine ⟨path, Tree.mem_changed.mpr (by rw [hblob]; exact hne), .inr ?_⟩
  rw [hblob]
  unfold Checkout.isSymlink at hlink
  split at hlink
  · rename_i b hb
    exact ⟨b, hb, .inl (by simpa using hlink)⟩
  · exact absurd hlink (by simp)

end

/-! ## A file of notes -/

/-- All lines of the old version, and all of the new. -/
def wholeHunk (old new : List UInt8) : Hunk UInt8 where
  oldStart := if old = [] then 0 else 1
  newStart := if new = [] then 0 else 1
  lines := ((TextLines.split (ascii '\n') old).map fun line => ⟨.deleted, line, false⟩) ++
    (TextLines.split (ascii '\n') new).map fun line => ⟨.added, line, false⟩

def wholeHunks (old new : List UInt8) : List (Hunk UInt8) :=
  if old = new then [] else [wholeHunk old new]

theorem eq_of_mem_wholeHunks {old new : List UInt8} {h : Hunk UInt8}
    (hh : h ∈ wholeHunks old new) : h = wholeHunk old new := by
  unfold wholeHunks at hh
  split at hh
  · exact absurd hh List.not_mem_nil
  · exact List.mem_singleton.mp hh

/-- A git that shows files as a whole, without renames. -/
def wholeFiles : DiffEngine where
  toGitFiles := plainFiles
  binary _ content := (content.take 8000).contains 0
  similarity _ _ := 100
  objectName content :=
    if content = some [49, 10] then hexName "d00491f"
    else if content = some [50, 10] then hexName "0cfbf08"
    else if content = some ("Subproject commit\n".toList.map ascii) then hexName "6196da8"
    else hexName "0000000"
  hunks := wholeHunks
  hunks_lines := by
    intro old new h l hh hl
    rw [eq_of_mem_wholeHunks hh] at hl
    rcases List.mem_append.mp hl with hl | hl
    · obtain ⟨line, hline, rfl⟩ := List.mem_map.mp hl
      exact .inl hline
    · obtain ⟨line, hline, rfl⟩ := List.mem_map.mp hl
      exact .inr hline
  hunks_heading hh := by
    rw [eq_of_mem_wholeHunks hh]
    exact List.not_mem_nil
  hunks_show := by
    intro old new hne
    refine ⟨wholeHunk old new, by simp [wholeHunks, hne], fun hnone => hne ?_⟩
    obtain ⟨hold, hnew⟩ := List.append_eq_nil_iff.mp hnone
    rw [List.map_eq_nil_iff] at hold hnew
    have hempty {file : List UInt8} (h : TextLines.split (ascii '\n') file = []) : file = [] := by
      by_contra hfile
      exact TextLines.split_ne_nil hfile h
    rw [hempty hold, hempty hnew]

def notesBase : Commit := ⟨"base", oneFile "notes.md" [49, 10]⟩

def notes (content : List UInt8) : Checkout := ⟨"base", oneFile "notes.md" content, ["notes.md"]⟩

theorem notes_isSymlink (content : List UInt8) (path : String) :
    (notes content).isSymlink path = false := by
  unfold Checkout.isSymlink
  split
  · rename_i b hb
    rw [eq_of_mem_oneFile hb]
    rfl
  · rfl

/-- An edit of the file is supported where both versions are text. -/
theorem notes_supported {content : List UInt8} (hutf8 : IsUtf8 content) (hnul : 0 ∉ content) :
    ¬ HasUnsupported wholeFiles notesBase (notes content) := by
  have hfile {file : List UInt8} (htext : IsUtf8 file) (hnul : 0 ∉ file) (path : String) :
      ¬ IsUnsupported wholeFiles path ⟨.regular, file⟩ := by
    have hbinary : wholeFiles.isBinary path (some ⟨.regular, file⟩) = false := by
      have htake : 0 ∉ file.take 8000 := fun h => hnul (List.mem_of_mem_take h)
      simpa [DiffEngine.isBinary, wholeFiles] using fun _ => htake
    rintro (h | h | h | h)
    · exact absurd h (by simp)
    · exact absurd h (by simp)
    · exact absurd h (by simp [hbinary])
    · exact h htext
  rintro ⟨path, -, ⟨b, hb, h⟩ | ⟨b, hb, h⟩⟩
  · have hold : IsUtf8 [49, 10] := ⟨['1', '\n'], by decide⟩
    rw [eq_of_mem_oneFile hb] at h
    exact hfile hold (by decide) path h
  · rw [patchTree_blob] at hb
    split at hb
    · rw [eq_of_mem_oneFile hb] at h
      exact hfile hutf8 hnul path h
    · exact absurd hb (by simp)

/-- The file is tracked, and no attribute converts it. -/
theorem notes_compared : ComparesFiles wholeFiles (notes [50, 10]) where
  index path _ := by
    have hnew : (notes [50, 10]).newFiles wholeFiles.toGit = [] := by decide
    rw [Checkout.captured, hnew]
    simp [Checkout.addNames]
  content path _ b _ := by
    unfold Blob.convert
    split <;> rfl

/-- The work tree of an agent that wrote git's words for a submodule. -/
def phraseNotes : Checkout := notes ("Subproject commit\n".toList.map ascii)

end Runtime

end AgentReliability
