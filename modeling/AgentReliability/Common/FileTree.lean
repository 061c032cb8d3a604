import Mathlib.Data.List.Basic
import Mathlib.Data.List.Infix
import Mathlib.Tactic.Common
/-!
# Paths, links and where they lead

A tree of directories, files and symbolic links, and the two ways a path is
followed in it. `realpath` resolves a path whether or not anything is
there; opening one needs every directory on the way. Where both come to a
location it is the same one.
-/

namespace AgentReliability

/-! ## Pure paths -/

/-- The pieces of a path between its slashes. -/
def pieces (text : String) : List String := (text.toList.splitOn '/').map String.ofList

/-- A path starts at the root. -/
def isAbsolute (text : String) : Bool := text.toList.head? = some '/'

/-- A path as `pathlib` keeps it: its empty pieces and its dots are
dropped. -/
structure PurePath where
  absolute : Bool
  names : List String
  valid : ∀ name ∈ names, name ≠ "" ∧ name ≠ "." ∧ '/' ∉ name.toList
  deriving DecidableEq

theorem slash_of_mem_splitOn {cs piece : List Char} (h : piece ∈ cs.splitOn '/') :
    '/' ∉ piece := by
  induction cs generalizing piece with
  | nil =>
    rw [List.splitOn_nil, List.mem_singleton] at h
    rw [h]
    exact List.not_mem_nil
  | cons c cs ih =>
    rw [List.splitOn_cons_eq_if_modifyHead] at h
    split at h
    · rcases List.mem_cons.mp h with rfl | h
      · exact List.not_mem_nil
      · exact ih h
    · next hc =>
      cases hsplit : cs.splitOn '/' with
      | nil =>
        rw [hsplit] at h
        exact absurd h (by simp)
      | cons first rest =>
        rw [hsplit] at ih h
        rcases List.mem_cons.mp h with rfl | h
        · intro hmem
          rcases List.mem_cons.mp hmem with heq | hmem
          · exact hc (by rw [← heq]; rfl)
          · exact ih List.mem_cons_self hmem
        · exact ih (List.mem_cons_of_mem _ h)

namespace PurePath

/-- A piece that is kept. -/
def isName (piece : String) : Bool := piece ≠ "" && piece ≠ "."

/-- `Path(text)`. -/
def parse (text : String) : PurePath where
  absolute := isAbsolute text
  names := (pieces text).filter isName
  valid := by
    intro name hname
    obtain ⟨hpiece, hkept⟩ := List.mem_filter.mp hname
    obtain ⟨piece, hsplit, rfl⟩ := List.mem_map.mp hpiece
    rw [isName, Bool.and_eq_true, decide_eq_true_eq, decide_eq_true_eq] at hkept
    refine ⟨hkept.1, hkept.2, ?_⟩
    rw [String.toList_ofList]
    exact slash_of_mem_splitOn hsplit

/-- `str(path)`. -/
def str (p : PurePath) : String :=
  if p.absolute = false ∧ p.names = [] then "."
  else String.ofList ((if p.absolute then ['/'] else []) ++
    ['/'].intercalate (p.names.map String.toList))

/-- `base / path`. -/
def join (base p : PurePath) : PurePath :=
  if p.absolute then p
  else {
    absolute := base.absolute
    names := base.names ++ p.names
    valid := by
      intro name hname
      rcases List.mem_append.mp hname with h | h
      · exact base.valid name h
      · exact p.valid name h }

/-- What is dropped of the pieces of names that are joined. -/
theorem filter_pieces {names : List String}
    (hvalid : ∀ name ∈ names, name ≠ "" ∧ name ≠ "." ∧ '/' ∉ name.toList) (hne : names ≠ []) :
    (((['/'].intercalate (names.map String.toList)).splitOn '/').map String.ofList).filter isName =
      names := by
  have hslash : ∀ cs ∈ names.map String.toList, '/' ∉ cs := by
    intro cs hcs
    obtain ⟨name, hname, rfl⟩ := List.mem_map.mp hcs
    exact (hvalid name hname).2.2
  rw [List.splitOn_intercalate '/' hslash (by simpa using hne), List.map_map]
  have hid : String.ofList ∘ String.toList = id := funext fun name => String.ofList_toList
  rw [hid, List.map_id, List.filter_eq_self]
  intro name hname
  rw [isName, Bool.and_eq_true, decide_eq_true_eq, decide_eq_true_eq]
  exact ⟨(hvalid name hname).1, (hvalid name hname).2.1⟩

/-- **A path is read back from its text.** -/
theorem parse_str (p : PurePath) : parse p.str = p := by
  obtain ⟨absolute, names, hvalid⟩ := p
  cases absolute with
  | true =>
    have hstr : (str ⟨true, names, hvalid⟩).toList =
        '/' :: ['/'].intercalate (names.map String.toList) := by
      unfold str
      rw [if_neg (by simp), String.toList_ofList]
      rfl
    have hnames : (pieces (str ⟨true, names, hvalid⟩)).filter isName = names := by
      unfold pieces
      rw [hstr, List.splitOn_cons_eq_if_modifyHead, if_pos (by decide), List.map_cons,
        List.filter_cons_of_neg (by decide)]
      cases names with
      | nil => decide
      | cons name rest => exact filter_pieces hvalid (List.cons_ne_nil _ _)
    have habsolute : isAbsolute (str ⟨true, names, hvalid⟩) = true := by
      unfold isAbsolute
      rw [hstr]
      rfl
    simp only [parse, hnames, habsolute]
  | false =>
    cases names with
    | nil =>
      have hnames : (pieces ".").filter isName = [] := by decide
      have habsolute : isAbsolute "." = false := by decide
      show parse "." = _
      simp only [parse, hnames, habsolute]
    | cons name rest =>
      have hstr : (str ⟨false, name :: rest, hvalid⟩).toList =
          ['/'].intercalate ((name :: rest).map String.toList) := by
        unfold str
        rw [if_neg (by simp), String.toList_ofList]
        rfl
      have hnames : (pieces (str ⟨false, name :: rest, hvalid⟩)).filter isName = name :: rest := by
        unfold pieces
        rw [hstr]
        exact filter_pieces hvalid (List.cons_ne_nil _ _)
      have habsolute : isAbsolute (str ⟨false, name :: rest, hvalid⟩) = false := by
        obtain ⟨hempty, -, hslash⟩ := hvalid name List.mem_cons_self
        unfold isAbsolute
        rw [hstr]
        cases hchars : name.toList with
        | nil => exact absurd (String.toList_eq_nil_iff.mp hchars) hempty
        | cons c cs =>
          -- the first character is of the first name
          have hc : c ≠ '/' := by
            rintro rfl
            exact hslash (by rw [hchars]; exact List.mem_cons_self)
          cases rest <;> simp [List.intercalate, hchars, hc]
      simp only [parse, hnames, habsolute]

end PurePath

/-! ## Trees -/

/-- Where something is: the names from the root, none of which is a link. -/
abbrev Location := List String

inductive FileNode where
  | dir
  | file
  | link (target : String)
  deriving DecidableEq, Repr

def kindIn (entries : List (Location × FileNode)) (location : Location) : Option FileNode :=
  if location = [] then some .dir else entries.lookup location

/-- **A file system**: what is at a location is in a directory, under a
name. -/
structure FileTree where
  entries : List (Location × FileNode)
  parents : ∀ e ∈ entries, kindIn entries e.1.dropLast = some .dir
  named : ∀ e ∈ entries, ∀ name ∈ e.1, name ∉ ["", ".", ".."]

namespace FileTree

variable (t : FileTree)

/-- What is at a location. -/
def kind (location : Location) : Option FileNode := kindIn t.entries location

/-! ### `realpath` -/

/-- One pass over the names of a path, with what follows a link. -/
def resolveWith (follow : Location → List String → Option Location) :
    Location → List String → Option Location
  | path, [] => some path
  | path, name :: rest =>
    if name ∈ ["", "."] then resolveWith follow path rest
    else if name = ".." then resolveWith follow path.dropLast rest
    else match t.kind (path ++ [name]) with
      | some (.link target) => do
        let path ← follow (if isAbsolute target then [] else path) (pieces target)
        resolveWith follow path rest
      | _ => resolveWith follow (path ++ [name]) rest

/-- Links up to a depth: a deeper one is in a loop. -/
def realpathFrom : ℕ → Location → List String → Option Location
  | 0 => t.resolveWith fun _ _ => none
  | depth + 1 => t.resolveWith (realpathFrom depth)

/-- `os.path.realpath` of the absolute path with some names; there is none
in a loop. Links that are followed inside each other are different, so there
are no more than entries. -/
def realpath (names : List String) : Option Location := t.realpathFrom t.entries.length [] names

/-! ### Opening -/

def openWith (follow : Location → List String → Option Location) :
    Location → List String → Option Location
  | path, [] => some path
  | path, name :: rest =>
    if t.kind path ≠ some .dir then none
    else if name ∈ ["", "."] then openWith follow path rest
    else if name = ".." then openWith follow path.dropLast rest
    else match t.kind (path ++ [name]) with
      | none => none
      | some (.link target) =>
        follow (if isAbsolute target then [] else path) (pieces target ++ rest)
      | some _ => openWith follow (path ++ [name]) rest

/-- The walk of the kernel, with so many links left. -/
def openFrom : ℕ → Location → List String → Option Location
  | 0 => t.openWith fun _ _ => none
  | links + 1 => t.openWith (openFrom links)

/-- `MAXSYMLINKS`. -/
def maxSymlinks : ℕ := 40

/-- The file that is opened at the absolute path with some names. -/
def openedFile (names : List String) : Option Location :=
  (t.openFrom maxSymlinks [] names).filter fun location => t.kind location = some .file

variable {t}

/-- What the kernel does at a link. -/
def atLink (t : FileTree) : ℕ → Location → List String → Option Location
  | 0, _, _ => none
  | links + 1, base, names => t.openFrom links base names

theorem openFrom_eq (links : ℕ) : t.openFrom links = t.openWith (t.atLink links) := by
  cases links <;> rfl

theorem openFrom_of_atLink {links : ℕ} {base location : Location} {names : List String}
    (h : t.atLink links base names = some location) :
    ∃ links', t.openFrom links' base names = some location := by
  cases links with
  | zero => exact absurd h (by simp [atLink])
  | succ links => exact ⟨links, h⟩

/-! ### What exists -/

theorem mem_of_kind {location : Location} {node : FileNode} (hne : location ≠ [])
    (h : t.kind location = some node) : (location, node) ∈ t.entries := by
  unfold kind kindIn at h
  rw [if_neg hne] at h
  obtain ⟨before, after, hentries, -⟩ := List.lookup_eq_some_iff.mp h
  rw [hentries]
  exact List.mem_append_right before List.mem_cons_self

/-- What is above something that exists is a directory. -/
theorem dir_of_kind {above below : Location} {node : FileNode} (hne : below ≠ [])
    (h : t.kind (above ++ below) = some node) : t.kind above = some .dir := by
  induction below using List.reverseRecOn generalizing node with
  | nil => exact absurd rfl hne
  | append_singleton below name ih =>
    rw [← List.append_assoc] at h
    have hparent : t.kind (above ++ below) = some .dir := by
      have hmem := mem_of_kind (by simp) h
      have := t.parents _ hmem
      rwa [List.dropLast_concat] at this
    by_cases hbelow : below = []
    · rw [hbelow, List.append_nil] at hparent
      exact hparent
    · exact ih hbelow hparent

theorem name_of_kind {above : Location} {name : String} {below : Location} {node : FileNode}
    (h : t.kind (above ++ name :: below) = some node) : name ∉ ["", "."] ∧ name ≠ ".." := by
  have hmem := mem_of_kind (by simp) h
  have hnamed := t.named _ hmem name (by simp)
  constructor
  · intro hdot
    exact hnamed (List.mem_append_left [".."] hdot)
  · rintro rfl
    exact hnamed (by simp)

/-- **What exists is opened where it is**, if it is no link. -/
theorem openFrom_of_kind (links : ℕ) {above below : Location} {node : FileNode}
    (hnode : ∀ target, node ≠ .link target) (h : t.kind (above ++ below) = some node) :
    t.openFrom links above below = some (above ++ below) := by
  rw [openFrom_eq]
  induction below generalizing above with
  | nil => rw [openWith, List.append_nil]
  | cons name below ih =>
    have habove : t.kind above = some .dir := dir_of_kind (List.cons_ne_nil _ _) h
    obtain ⟨hdot, hup⟩ := name_of_kind h
    rw [List.append_cons] at h ⊢
    have hstep := ih h
    rw [openWith, if_neg (by simp [habove]), if_neg hdot, if_neg hup]
    by_cases hbelow : below = []
    · rw [hbelow, List.append_nil] at h
      cases node with
      | link target => exact absurd rfl (hnode target)
      | dir => simp only [h, hstep]
      | file => simp only [h, hstep]
    · have hdir : t.kind (above ++ [name]) = some .dir := dir_of_kind hbelow h
      simp only [hdir, hstep]

/-! ### Where both ways come to -/

/-- Following what `realpath` has followed. -/
theorem openFrom_of_resolveWith {follow : Location → List String → Option Location}
    (hfollow : ∀ path names q, follow path names = some q → ∀ links rest location,
      t.openFrom links path (names ++ rest) = some location →
        ∃ links', t.openFrom links' q rest = some location)
    {path q : Location} {names : List String} (h : t.resolveWith follow path names = some q)
    {links : ℕ} {rest : List String} {location : Location}
    (hopen : t.openFrom links path (names ++ rest) = some location) :
    ∃ links', t.openFrom links' q rest = some location := by
  induction names generalizing path links with
  | nil =>
    obtain rfl := Option.some.inj h
    exact ⟨links, hopen⟩
  | cons name names ih =>
    have hwalk := hopen
    rw [openFrom_eq] at hwalk
    change t.openWith _ path (name :: (names ++ rest)) = some location at hwalk
    rw [openWith] at hwalk
    rw [resolveWith] at h
    split at hwalk
    · exact absurd hwalk (by simp)
    · by_cases hdot : name ∈ ["", "."]
      · rw [if_pos hdot] at h hwalk
        rw [← openFrom_eq] at hwalk
        exact ih h hwalk
      · rw [if_neg hdot] at h hwalk
        by_cases hup : name = ".."
        · rw [if_pos hup] at h hwalk
          rw [← openFrom_eq] at hwalk
          exact ih h hwalk
        · rw [if_neg hup] at h hwalk
          cases hkind : t.kind (path ++ [name]) with
          | none =>
            simp only [hkind] at hwalk
            exact absurd hwalk (by simp)
          | some node =>
            cases node with
            | link target =>
              simp only [hkind, Option.bind_eq_bind, Option.bind_eq_some_iff] at h hwalk
              obtain ⟨p, hp, hq⟩ := h
              obtain ⟨links₁, hfirst⟩ := openFrom_of_atLink hwalk
              obtain ⟨links₂, hsecond⟩ := hfollow _ _ _ hp _ _ _ hfirst
              exact ih hq hsecond
            | dir =>
              simp only [hkind] at h hwalk
              rw [← openFrom_eq] at hwalk
              exact ih h hwalk
            | file =>
              simp only [hkind] at h hwalk
              rw [← openFrom_eq] at hwalk
              exact ih h hwalk

theorem openFrom_of_realpathFrom {depth : ℕ} {path q : Location} {names : List String}
    (h : t.realpathFrom depth path names = some q) {links : ℕ} {rest : List String}
    {location : Location} (hopen : t.openFrom links path (names ++ rest) = some location) :
    ∃ links', t.openFrom links' q rest = some location := by
  induction depth generalizing path q names links rest location with
  | zero => exact openFrom_of_resolveWith (fun _ _ _ h => absurd h (by simp)) h hopen
  | succ depth ih => exact openFrom_of_resolveWith (fun _ _ _ h _ _ _ => ih h) h hopen

theorem openedFile_eq_some {names : List String} {location : Location} :
    t.openedFile names = some location ↔
      t.openFrom maxSymlinks [] names = some location ∧ t.kind location = some .file := by
  unfold openedFile
  rw [Option.filter_eq_some_iff, decide_eq_true_eq]

/-- **What is opened at a path is what it resolves to.** -/
theorem openedFile_eq_realpath {names : List String} {q location : Location}
    (h : t.realpath names = some q) (hopened : t.openedFile names = some location) :
    location = q := by
  have hopen := (openedFile_eq_some.mp hopened).1
  rw [← List.append_nil names] at hopen
  obtain ⟨links, hlast⟩ := openFrom_of_realpathFrom h hopen
  rw [openFrom_eq] at hlast
  exact (Option.some.inj hlast).symm

/-! ### What `realpath` comes to -/

/-- No name of the location is special, and none leads to a link. -/
def Plain (t : FileTree) (location : Location) : Prop :=
  ∀ above name, above ++ [name] <+: location →
    name ∉ ["", "."] ∧ name ≠ ".." ∧ ∀ target, t.kind (above ++ [name]) ≠ some (.link target)

theorem plain_nil : t.Plain [] := by
  intro above name h
  exact absurd (List.prefix_nil.mp h) (by simp)

theorem Plain.dropLast {location : Location} (h : t.Plain location) : t.Plain location.dropLast :=
  fun above name hwithin => h above name (hwithin.trans (List.dropLast_prefix location))

theorem Plain.concat {location : Location} (h : t.Plain location) {name : String}
    (hdot : name ∉ ["", "."]) (hup : name ≠ "..")
    (hkind : ∀ target, t.kind (location ++ [name]) ≠ some (.link target)) :
    t.Plain (location ++ [name]) := by
  intro above other hwithin
  rcases List.prefix_concat_iff.mp hwithin with heq | hbefore
  · obtain ⟨rfl, hlast⟩ := List.append_inj' heq rfl
    obtain rfl : other = name := by simpa using hlast
    exact ⟨hdot, hup, hkind⟩
  · exact h above other hbefore

theorem resolveWith_plain {follow : Location → List String → Option Location}
    (hfollow : ∀ path names q, t.Plain path → follow path names = some q → t.Plain q)
    {path q : Location} {names : List String} (hpath : t.Plain path)
    (h : t.resolveWith follow path names = some q) : t.Plain q := by
  induction names generalizing path with
  | nil =>
    obtain rfl := Option.some.inj h
    exact hpath
  | cons name names ih =>
    rw [resolveWith] at h
    by_cases hdot : name ∈ ["", "."]
    · rw [if_pos hdot] at h
      exact ih hpath h
    · rw [if_neg hdot] at h
      by_cases hup : name = ".."
      · rw [if_pos hup] at h
        exact ih hpath.dropLast h
      · rw [if_neg hup] at h
        split at h
        · obtain ⟨p, hp, hq⟩ := Option.bind_eq_some_iff.mp h
          refine ih (hfollow _ _ _ ?_ hp) hq
          split
          · exact plain_nil
          · exact hpath
        · next hnot => exact ih (hpath.concat hdot hup hnot) h

theorem realpathFrom_plain {depth : ℕ} {path q : Location} {names : List String}
    (hpath : t.Plain path) (h : t.realpathFrom depth path names = some q) : t.Plain q := by
  induction depth generalizing path q names with
  | zero => exact resolveWith_plain (fun _ _ _ _ h => absurd h (by simp)) hpath h
  | succ depth ih => exact resolveWith_plain (fun _ _ _ hpath h => ih hpath h) hpath h

/-- **A plain location is opened where it is**, or not at all. -/
theorem openFrom_of_plain {links : ℕ} {path location : Location} {names : List String}
    (hplain : t.Plain (path ++ names)) (h : t.openFrom links path names = some location) :
    location = path ++ names := by
  rw [openFrom_eq] at h
  induction names generalizing path with
  | nil =>
    rw [List.append_nil]
    exact (Option.some.inj h).symm
  | cons name names ih =>
    have hwithin : path ++ [name] <+: path ++ name :: names := ⟨names, by simp⟩
    obtain ⟨hdot, hup, hlink⟩ := hplain path name hwithin
    rw [List.append_cons] at hplain ⊢
    rw [openWith] at h
    by_cases hdir : t.kind path = some .dir
    · rw [if_neg (not_not_intro hdir), if_neg hdot, if_neg hup] at h
      split at h
      · exact absurd h (by simp)
      · next target hkind => exact absurd hkind (hlink target)
      · exact ih hplain h
    · rw [if_pos hdir] at h
      exact absurd h (by simp)

/-- **What a path resolves to is opened where it is**, or is no file. -/
theorem openedFile_of_realpath {names : List String} {q location : Location}
    (h : t.realpath names = some q) (hopened : t.openedFile q = some location) : location = q := by
  have hopen := (openedFile_eq_some.mp hopened).1
  have hplain : t.Plain ([] ++ q) := realpathFrom_plain plain_nil h
  exact openFrom_of_plain hplain hopen

/-- A file is opened where it is. -/
theorem openedFile_of_kind {location : Location} (h : t.kind location = some .file) :
    t.openedFile location = some location := by
  have hbelow : t.kind ([] ++ location) = some .file := h
  exact openedFile_eq_some.mpr ⟨openFrom_of_kind maxSymlinks (fun target => by simp) hbelow, h⟩

/-! ### Directories a path does not name -/

/-- What a link outside a directory leads to is outside of it. -/
def NoLinkInto (t : FileTree) (directory : Location) : Prop :=
  ∀ path name target depth q, t.kind (path ++ [name]) = some (.link target) →
    ¬ directory <+: path ++ [name] →
      t.realpathFrom depth (if isAbsolute target then [] else path) (pieces target) = some q →
        ¬ directory <+: q

theorem not_within_of_resolveWith {follow : Location → List String → Option Location}
    {above : Location} {last : String}
    (hfollow : ∀ path name target q, t.kind (path ++ [name]) = some (.link target) →
      ¬ above ++ [last] <+: path ++ [name] →
        follow (if isAbsolute target then [] else path) (pieces target) = some q →
          ¬ above ++ [last] <+: q)
    {path q : Location} {names : List String} (hnames : last ∉ names)
    (hpath : ¬ above ++ [last] <+: path) (h : t.resolveWith follow path names = some q) :
    ¬ above ++ [last] <+: q := by
  induction names generalizing path with
  | nil =>
    obtain rfl := Option.some.inj h
    exact hpath
  | cons name names ih =>
    have hname : last ≠ name := List.ne_of_not_mem_cons hnames
    have hrest : last ∉ names := List.not_mem_of_not_mem_cons hnames
    rw [resolveWith] at h
    by_cases hdot : name ∈ ["", "."]
    · rw [if_pos hdot] at h
      exact ih hrest hpath h
    · rw [if_neg hdot] at h
      by_cases hup : name = ".."
      · rw [if_pos hup] at h
        exact ih hrest (fun hin => hpath (hin.trans (List.dropLast_prefix path))) h
      · rw [if_neg hup] at h
        have hnext : ¬ above ++ [last] <+: path ++ [name] := by
          intro hin
          rcases List.prefix_concat_iff.mp hin with heq | hbefore
          · obtain ⟨-, hlast⟩ := List.append_inj' heq rfl
            exact hname (by simpa using hlast)
          · exact hpath hbefore
        split at h
        · next target hkind =>
          obtain ⟨p, hp, hq⟩ := Option.bind_eq_some_iff.mp h
          exact ih hrest (hfollow path name target p hkind hnext hp) hq
        · exact ih hrest hnext h

/-- **A path that does not name a directory does not lead into it**, if no
link does. -/
theorem not_within_of_realpath {above : Location} {last : String}
    (hlinks : t.NoLinkInto (above ++ [last])) {names : List String} (hnames : last ∉ names)
    {q : Location} (h : t.realpath names = some q) : ¬ above ++ [last] <+: q := by
  have hroot : ¬ above ++ [last] <+: [] := fun hin => absurd (List.prefix_nil.mp hin) (by simp)
  unfold realpath at h
  cases hdepth : t.entries.length with
  | zero =>
    rw [hdepth] at h
    exact not_within_of_resolveWith (fun _ _ _ _ _ _ h => absurd h (by simp)) hnames hroot h
  | succ depth =>
    rw [hdepth] at h
    refine not_within_of_resolveWith (fun path name target q hkind hout hq => ?_) hnames hroot h
    exact hlinks path name target depth q hkind hout hq

end FileTree

end AgentReliability
