import AgentReliability.ControlPlane.Deliver
/-!
# A delivery happens at most once

An execution that has been cut leaves the next one nothing but the code
host. What keeps that one from pushing or opening a pull request again is
what it finds there: the pull requests of the repair branch, and the branch.
-/

namespace AgentReliability

namespace ControlPlane

namespace Deliver

open DeliveryService (DeliveryError)

variable {T : Type} (objects : GitObjects T) (sha256 : String → String)
  (job : DeliveryInput)

/-- **The commit that was approved**: its parent is the commit the task was
executed on, and its tree is that of the parent with the patch. -/
def IsApproved (commit : String) : Prop :=
  ∃ snapshot tree patch patched, job.snapshot = some snapshot ∧
    objects.tree snapshot.executionSha = some tree ∧ sha256 patch = job.patchDigest ∧
    objects.apply tree patch = some patched ∧
    commit = objects.sha (gitCommit job patched snapshot.executionSha (commitMessage job snapshot))

/-- The last check before the push has seen the expected target. -/
def SawTarget (push : Push) : Prop :=
  ∃ snapshot, job.snapshot = some snapshot ∧ push.seen = some snapshot.delivery.expectedTargetSha

/-- The URL is that of a pull request with the marker. -/
def HasPull (url : String) (w : World T) : Prop :=
  ∃ pr ∈ w.pulls, isMarked job pr = true ∧ pr.url = url

/-- The branch a pull request of the job comes from. -/
def label : String := headLabel (job.githubRepo.getD "") job.branch

/-- **What holds of the world between any two steps.** -/
structure Inv (w : World T) : Prop where
  marked : w.pulls.countP (isMarked job) ≤ 1
  labelled : ∀ pr ∈ w.pulls, isMarked job pr = true → pr.head = label job
  pushed : w.pushes.length ≤ 1
  unpushed : w.branch = none → w.pushes = []
  approved : ∀ push ∈ w.pushes, IsApproved objects sha256 job push.commit ∧ SawTarget job push
  returned : ∀ url ∈ w.returned, HasPull job url w

variable {objects sha256 job}

/-- **A delivery has happened at most once.** -/
structure DeliveredOnce (objects : GitObjects T) (sha256 : String → String) (job : DeliveryInput)
    (w : World T) : Prop where
  /-- There is at most one pull request with the marker. -/
  created : (w.pulls.filter (isMarked job)).length ≤ 1
  /-- The repair branch has been pushed at most once. -/
  pushed : w.pushes.length ≤ 1
  approved : ∀ push ∈ w.pushes, IsApproved objects sha256 job push.commit
  sawTarget : ∀ push ∈ w.pushes, SawTarget job push
  /-- What executions have returned is the URL of that pull request. -/
  returned : ∀ url ∈ w.returned, ∃ pr, w.pulls.filter (isMarked job) = [pr] ∧ pr.url = url

theorem Inv.deliveredOnce {w : World T} (h : Inv objects sha256 job w) :
    DeliveredOnce objects sha256 job w := by
  have hmarked : (w.pulls.filter (isMarked job)).length ≤ 1 :=
    List.countP_eq_length_filter ▸ h.marked
  refine ⟨hmarked, h.pushed, fun push hpush => (h.approved push hpush).1,
    fun push hpush => (h.approved push hpush).2, fun url hurl => ?_⟩
  obtain ⟨pr, hpr, hm, rfl⟩ := h.returned url hurl
  have hmem : pr ∈ w.pulls.filter (isMarked job) := List.mem_filter.mpr ⟨hpr, hm⟩
  obtain ⟨pr', hone⟩ := List.length_eq_one_iff.mp
    (Nat.le_antisymm hmarked (List.length_pos_of_mem hmem))
  rw [hone] at hmem
  exact ⟨pr, by rw [hone, List.mem_singleton.mp hmem], rfl⟩

/-! ## What others leave as it is -/

/-- What the invariant is told of a pull request. -/
def view (job : DeliveryInput) (pr : PullRequest) : Bool × String × String :=
  (isMarked job pr, pr.head, pr.url)

/-- A pull request is opened and closed without a trace. -/
theorem map_view_modify (index : ℕ) (isOpen : Bool) (pulls : List PullRequest) :
    (pulls.modify index fun pr => { pr with isOpen }).map (view job) = pulls.map (view job) := by
  induction pulls generalizing index with
  | nil => simp
  | cons pr pulls ih =>
    cases index with
    | zero => rfl
    | succ index => simpa using ih index

/-- What a view tells carries over to the pull requests. -/
theorem exists_of_map_view {pulls pulls' : List PullRequest}
    (h : pulls'.map (view job) = pulls.map (view job)) {pr : PullRequest} (hpr : pr ∈ pulls') :
    ∃ pr' ∈ pulls, isMarked job pr' = isMarked job pr ∧ pr'.head = pr.head ∧ pr'.url = pr.url := by
  have hmem : view job pr ∈ pulls.map (view job) := h ▸ List.mem_map_of_mem hpr
  obtain ⟨pr', hpr', heq⟩ := List.mem_map.mp hmem
  simp only [view, Prod.mk.injEq] at heq
  exact ⟨pr', hpr', heq⟩

theorem countP_of_map_view {pulls pulls' : List PullRequest}
    (h : pulls'.map (view job) = pulls.map (view job)) :
    pulls'.countP (isMarked job) = pulls.countP (isMarked job) := by
  have hview (l : List PullRequest) :
      l.countP (isMarked job) = (l.map (view job)).countP Prod.fst := by
    rw [List.countP_map]
    rfl
  rw [hview, h, ← hview]

/-- What the invariant is about has not changed. -/
structure Same (job : DeliveryInput) (w w' : World T) : Prop where
  pulls : w'.pulls.map (view job) = w.pulls.map (view job)
  branch : w'.branch = w.branch
  pushes : w'.pushes = w.pushes
  returned : w'.returned = w.returned

theorem HasPull.same {url : String} {w w' : World T} (hs : Same job w w') (h : HasPull job url w) :
    HasPull job url w' := by
  obtain ⟨pr, hpr, hmarked, hurl⟩ := h
  obtain ⟨pr', hpr', hm, -, hu⟩ := exists_of_map_view hs.pulls.symm hpr
  exact ⟨pr', hpr', hm.trans hmarked, hu.trans hurl⟩

theorem Inv.same {w w' : World T} (hs : Same job w w') (h : Inv objects sha256 job w) :
    Inv objects sha256 job w' where
  marked := countP_of_map_view hs.pulls ▸ h.marked
  labelled pr hpr hmarked := by
    obtain ⟨pr', hpr', hm, hhead, -⟩ := exists_of_map_view hs.pulls hpr
    rw [← hhead]
    exact h.labelled pr' hpr' (hm.trans hmarked)
  pushed := hs.pushes ▸ h.pushed
  unpushed hbranch := by
    rw [hs.pushes]
    exact h.unpushed (hs.branch ▸ hbranch)
  approved push hpush := h.approved push (hs.pushes ▸ hpush)
  returned url hurl := (h.returned url (hs.returned ▸ hurl)).same hs

/-- **A pull request is opened**: with the marker only if none has it. -/
theorem Inv.addPull {w : World T} (h : Inv objects sha256 job w) {pr : PullRequest}
    (hnew : isMarked job pr = true →
      pr.head = label job ∧ ∀ pr' ∈ w.pulls, isMarked job pr' = false) :
    Inv objects sha256 job { w with pulls := w.pulls ++ [pr] } where
  marked := by
    rw [List.countP_append]
    by_cases hmarked : isMarked job pr = true
    · have hnone : w.pulls.countP (isMarked job) = 0 :=
        List.countP_eq_zero.mpr fun pr' hpr' => by simp [(hnew hmarked).2 pr' hpr']
      simp [hnone, hmarked]
    · simpa [hmarked] using h.marked
  labelled pr' hpr' hmarked := by
    rcases List.mem_append.mp hpr' with hold | hlast
    · exact h.labelled pr' hold hmarked
    · obtain rfl := List.mem_singleton.mp hlast
      exact (hnew hmarked).1
  pushed := h.pushed
  unpushed := h.unpushed
  approved := h.approved
  returned url hurl := by
    obtain ⟨pr', hpr', hfound⟩ := h.returned url hurl
    exact ⟨pr', List.mem_append_left [pr] hpr', hfound⟩

theorem hasPull_addPull {w : World T} {pr : PullRequest} (h : isMarked job pr = true) :
    HasPull job pr.url { w with pulls := w.pulls ++ [pr] } :=
  ⟨pr, List.mem_append_right w.pulls (List.mem_singleton_self pr), h, rfl⟩

theorem inv_init (row : JobRow) (artifact : Option String) (target : String) :
    Inv objects sha256 job { row, artifact, target } where
  marked := Nat.zero_le 1
  labelled _ hpr := absurd hpr List.not_mem_nil
  pushed := Nat.zero_le 1
  unpushed _ := rfl
  approved _ hpush := absurd hpush List.not_mem_nil
  returned _ hurl := absurd hurl List.not_mem_nil

/-- An execution returns a URL. -/
theorem Inv.leave {w : World T} {url : String} (h : Inv objects sha256 job w)
    (hurl : HasPull job url w) :
    Inv objects sha256 job { w with returned := w.returned ++ [url] } :=
  { h with
    returned := by
      intro url' hmem
      rcases List.mem_append.mp hmem with hold | hlast
      · exact h.returned url' hold
      · exact List.mem_singleton.mp hlast ▸ hurl }

/-- **What others do to the world**: nothing the invariant is about, or a
pull request without the marker. -/
theorem interfere_cases (job : DeliveryInput) (change : Interference) (w : World T) :
    (Same job w (interfere job change w) ∧ (interfere job change w).work = w.work ∧
      (interfere job change w).seen = w.seen) ∨
    ∃ pr, isMarked job pr = false ∧
      interfere job change w = { w with pulls := w.pulls ++ [pr] } := by
  cases change with
  | moveTarget sha => exact .inl ⟨⟨rfl, rfl, rfl, rfl⟩, rfl, rfl⟩
  | writeRow row => exact .inl ⟨⟨rfl, rfl, rfl, rfl⟩, rfl, rfl⟩
  | writeArtifact content => exact .inl ⟨⟨rfl, rfl, rfl, rfl⟩, rfl, rfl⟩
  | setOpen index isOpen =>
    exact .inl ⟨⟨map_view_modify index isOpen w.pulls, rfl, rfl, rfl⟩, rfl, rfl⟩
  | openPull pr =>
    by_cases hmarked : isMarked job pr = true
    · exact .inl (by simpa [interfere, hmarked] using ⟨rfl, rfl, rfl, rfl⟩)
    · exact .inr ⟨pr, by simpa using hmarked, by simp [interfere, hmarked]⟩

/-! ## What an execution knows -/

/-- What an execution that has found no pull request knows: there is still
none with the marker, and `P` of the clone, of the branch and of what the
last check of the target has seen. -/
structure Known (objects : GitObjects T) (sha256 : String → String) (job : DeliveryInput)
    (P : WorkRepo T → Option String → Option String → Prop) (w : World T) : Prop where
  inv : Inv objects sha256 job w
  unmarked : ∀ pr ∈ w.pulls, isMarked job pr = false
  known : P w.work w.branch w.seen

variable {P P' : WorkRepo T → Option String → Option String → Prop} {w : World T}

theorem Known.mono (h : Known objects sha256 job P w) (hP : P w.work w.branch w.seen →
    P' w.work w.branch w.seen) : Known objects sha256 job P' w :=
  { h with known := hP h.known }

theorem Known.same {w' : World T} (h : Known objects sha256 job P w) (hs : Same job w w')
    (hP : P' w'.work w'.branch w'.seen) : Known objects sha256 job P' w' where
  inv := h.inv.same hs
  unmarked pr hpr := by
    obtain ⟨pr', hpr', hm, -⟩ := exists_of_map_view hs.pulls hpr
    rw [← hm]
    exact h.unmarked pr' hpr'
  known := hP

/-- The repair branch has no pull request. -/
theorem known_of_listed (h : Inv objects sha256 job w)
    (hlisted : w.pulls.filter (·.head = label job) = []) :
    Known objects sha256 job (fun _ _ _ => True) w := by
  refine ⟨h, fun pr hpr => ?_, trivial⟩
  by_contra hmarked
  have hmem : pr ∈ w.pulls.filter (·.head = label job) :=
    List.mem_filter.mpr ⟨hpr, by simpa using h.labelled pr hpr (by simpa using hmarked)⟩
  simp [hlisted] at hmem

variable [DecidableEq T]

theorem stable_inv : (host objects sha256 job).Stable (Inv objects sha256 job) := by
  intro change w h
  rcases interfere_cases job change w with ⟨hs, -, -⟩ | ⟨pr, hunmarked, heq⟩
  · exact h.same hs
  · show Inv objects sha256 job (interfere job change w)
    rw [heq]
    exact h.addPull fun hmarked => absurd hmarked (by simp [hunmarked])

theorem stable_hasPull (url : String) :
    (host objects sha256 job).Stable fun w => Inv objects sha256 job w ∧ HasPull job url w := by
  intro change w h
  refine ⟨stable_inv change w h.1, ?_⟩
  rcases interfere_cases job change w with ⟨hs, -, -⟩ | ⟨pr, -, heq⟩
  · exact h.2.same hs
  · obtain ⟨pr', hpr', hfound⟩ := h.2
    show HasPull job url (interfere job change w)
    rw [heq]
    exact ⟨pr', List.mem_append_left [pr] hpr', hfound⟩

theorem stable_known : (host objects sha256 job).Stable (Known objects sha256 job P) := by
  intro change w h
  rcases interfere_cases job change w with ⟨hs, hwork, hseen⟩ | ⟨pr, hunmarked, heq⟩
  · refine h.same hs ?_
    have hknown := h.known
    rwa [← hwork, ← hs.branch, ← hseen] at hknown
  · refine ⟨stable_inv change w h.inv, ?_, ?_⟩
    · show ∀ pr' ∈ (interfere job change w).pulls, _
      rw [heq]
      intro pr' hpr'
      rcases List.mem_append.mp hpr' with hold | hlast
      · exact h.unmarked pr' hold
      · exact (List.mem_singleton.mp hlast) ▸ hunmarked
    · have hknown := h.known
      show P (interfere job change w).work (interfere job change w).branch
        (interfere job change w).seen
      rw [heq]
      exact hknown

/-! ## What an effect does -/

/-- The effects that write to the code host. -/
def Effect.isPublic : Effect → Bool
  | push _ | createPull _ _ _ _ => true
  | _ => false

/-- **No other effect changes what the invariant is about.** -/
theorem same_of_exec {choice : Choice} {e : Effect} (he : e.isPublic = false) {a : e.Answer}
    {w' : World T} (h : exec objects job choice e w = some (a, w')) : Same job w w' := by
  cases e with
  | push commit => cases he
  | createPull title head base body => cases he
  | checkout sha | apply | commit message =>
    simp only [exec, Option.map_eq_some_iff, Prod.mk.injEq] at h
    obtain ⟨tree, -, -, rfl⟩ := h
    exact ⟨rfl, rfl, rfl, rfl⟩
  | _ =>
    simp only [exec, Option.some.injEq, Prod.mk.injEq] at h
    obtain ⟨-, rfl⟩ := h
    exact ⟨rfl, rfl, rfl, rfl⟩

/-- The effects that do not touch the clone either. -/
def Effect.isQuiet : Effect → Bool
  | findJob | findLease | listPulls _ | inspect _ | findArtifact | readSecret _ | writeAskpass
  | clone _ | revParse | updateCommit _ | lsRemote => true
  | _ => false

theorem isPublic_of_isQuiet {e : Effect} (h : e.isQuiet = true) : e.isPublic = false := by
  cases e <;> first | rfl | cases h

theorem quiet_of_exec {choice : Choice} {e : Effect} (he : e.isQuiet = true) {a : e.Answer}
    {w' : World T} (h : exec objects job choice e w = some (a, w')) :
    w'.work = w.work ∧ w'.branch = w.branch ∧ w'.seen = w.seen := by
  cases e with
  | findJob | findLease | listPulls head | inspect prUrl | findArtifact | readSecret credential
  | writeAskpass | clone repoPath | revParse | updateCommit commit | lsRemote =>
    simp only [exec, Option.some.injEq, Prod.mk.injEq] at h
    obtain ⟨-, rfl⟩ := h
    exact ⟨rfl, rfl, rfl⟩
  | _ => cases he

/-! ### The commit

What is known of the clone, from the checkout to the commit. -/

/-- The clone is at the commit the task was executed on. -/
def CheckedOut (objects : GitObjects T) (snapshot : TaskSnapshot) (work : WorkRepo T) : Prop :=
  work.head = snapshot.executionSha ∧
    ∃ tree, objects.tree snapshot.executionSha = some tree ∧ work.index = some tree

/-- The patch has been applied to it. -/
def Applied (objects : GitObjects T) (snapshot : TaskSnapshot) (patch : String)
    (work : WorkRepo T) : Prop :=
  work.head = snapshot.executionSha ∧
    ∃ tree patched, objects.tree snapshot.executionSha = some tree ∧
      objects.apply tree patch = some patched ∧ work.index = some patched

section Commit

variable {snapshot : TaskSnapshot} {patch : String} {choice : Choice} {w w' : World T}

theorem checkedOut_of_exec {a : Unit}
    (h : exec objects job choice (.checkout snapshot.executionSha) w = some (a, w')) :
    CheckedOut objects snapshot w'.work := by
  simp only [exec, Option.map_eq_some_iff, Prod.mk.injEq] at h
  obtain ⟨tree, htree, -, rfl⟩ := h
  exact ⟨rfl, tree, htree, rfl⟩

theorem written_of_exec {a : Unit} (hwork : CheckedOut objects snapshot w.work)
    (h : exec objects job choice (.writePatch patch) w = some (a, w')) :
    CheckedOut objects snapshot w'.work ∧ w'.work.patch = patch := by
  simp only [exec, Option.some.injEq, Prod.mk.injEq] at h
  obtain ⟨-, rfl⟩ := h
  exact ⟨hwork, rfl⟩

theorem applied_of_exec {a : Unit}
    (hwork : CheckedOut objects snapshot w.work ∧ w.work.patch = patch)
    (h : exec objects job choice .apply w = some (a, w')) :
    Applied objects snapshot patch w'.work := by
  obtain ⟨⟨hhead, tree, htree, hindex⟩, rfl⟩ := hwork
  simp only [exec, hindex, Option.bind_some, Option.map_eq_some_iff, Prod.mk.injEq] at h
  obtain ⟨patched, happly, -, rfl⟩ := h
  exact ⟨hhead, tree, patched, htree, happly, rfl⟩

theorem approved_of_exec {a : Unit} (hsnapshot : job.snapshot = some snapshot)
    (hpatch : sha256 patch = job.patchDigest) (hwork : Applied objects snapshot patch w.work)
    (h : exec objects job choice (.commit (commitMessage job snapshot)) w = some (a, w')) :
    IsApproved objects sha256 job w'.work.head := by
  obtain ⟨hhead, tree, patched, htree, happly, hindex⟩ := hwork
  simp only [exec, hindex, hhead, Option.map_eq_some_iff, Option.filter_eq_some_iff,
    Option.some.injEq, Prod.mk.injEq] at h
  obtain ⟨_, ⟨rfl, -⟩, -, rfl⟩ := h
  exact ⟨snapshot, tree, patch, patched, hsnapshot, htree, hpatch, happly, rfl⟩

end Commit

/-! ## An execution, step by step -/

/-- The execution keeps the invariant, and returns the URL of a pull request
with the marker. -/
abbrev Keeps (objects : GitObjects T) (sha256 : String → String) (job : DeliveryInput)
    (p : Execution String) (w : World T) : Prop :=
  (host objects sha256 job).Safe (Inv objects sha256 job)
    (fun url w => Inv objects sha256 job w ∧ HasPull job url w) p w

theorem keeps_ret {url : String} (h : Inv objects sha256 job w) (hurl : HasPull job url w) :
    Keeps objects sha256 job (.ret url) w :=
  Host.Safe.ret (stable_hasPull url) (fun _ h => h.1) (fun _ h => h) ⟨h, hurl⟩

/-- **An effect that does not write to the code host.** -/
theorem keeps_call {e : Effect} {Q : e.Answer → WorkRepo T → Option String → Option String → Prop}
    {f : e.Answer → Execution String} (he : e.isPublic = false)
    (h : Known objects sha256 job P w)
    (hexec : ∀ choice a w w', P w.work w.branch w.seen →
      exec objects job choice e w = some (a, w') → Q a w'.work w'.branch w'.seen)
    (hf : ∀ a w, Known objects sha256 job (Q a) w → Keeps objects sha256 job (f a) w) :
    Keeps objects sha256 job (Program.call e >>= f) w := by
  refine Host.Safe.call_bind stable_known (fun w hw => hw.inv) h ?_
  intro w choice a w' hw h
  exact hf a w' (hw.same (same_of_exec he h) (hexec choice a w w' hw.known h))

theorem keeps_ofExcept {α : Type} {x : Except DeliveryError α} {f : α → Execution String}
    (h : Inv objects sha256 job w) (hf : ∀ a, x = .ok a → Keeps objects sha256 job (f a) w) :
    Keeps objects sha256 job (Program.ofExcept x >>= f) w :=
  Host.Safe.ofExcept_bind h hf

/-- A look around. -/
theorem keeps_look {e : Effect} {f : e.Answer → Execution String} (he : e.isQuiet = true)
    (h : Known objects sha256 job P w)
    (hf : ∀ a w, Known objects sha256 job P w → Keeps objects sha256 job (f a) w) :
    Keeps objects sha256 job (Program.call e >>= f) w := by
  refine keeps_call (isPublic_of_isQuiet he) h (fun choice a w w' hP hexec => ?_) hf
  obtain ⟨hwork, hbranch, hseen⟩ := quiet_of_exec he hexec
  rwa [hwork, hbranch, hseen]

/-- **A check of the target branch**: it was as expected. -/
theorem keeps_assertTarget {P : WorkRepo T → Option String → Prop} {snapshot : TaskSnapshot}
    {f : Unit → Execution String}
    (h : Known objects sha256 job (fun work branch _ => P work branch) w)
    (hf : ∀ w, Known objects sha256 job (fun work branch seen =>
        P work branch ∧ seen = some snapshot.delivery.expectedTargetSha) w →
      Keeps objects sha256 job (f ()) w) :
    Keeps objects sha256 job (assertTarget snapshot >>= f) w := by
  rw [assertTarget, bind_assoc]
  refine keeps_call (Q := fun current work branch seen => P work branch ∧ seen = some current)
    rfl h ?_ ?_
  · intro choice current w w' hP hexec
    simp only [exec, Option.some.injEq, Prod.mk.injEq] at hexec
    obtain ⟨rfl, rfl⟩ := hexec
    exact ⟨hP, rfl⟩
  · intro current w h
    refine keeps_ofExcept h.inv fun _ hok => hf w (h.mono ?_)
    have hexpected := require_eq_ok.mp hok
    rw [hexpected]
    exact id

theorem keeps_assertLease {leaseToken : LeaseToken} {f : Unit → Execution String}
    (h : Known objects sha256 job P w)
    (hf : ∀ w, Known objects sha256 job P w → Keeps objects sha256 job (f ()) w) :
    Keeps objects sha256 job (assertLease leaseToken >>= f) w := by
  rw [assertLease, bind_assoc]
  exact keeps_look rfl h fun current w h => keeps_ofExcept h.inv fun _ _ => hf w h

/-- **The push**, of the approved commit, where there is no branch. -/
theorem keeps_push {snapshot : TaskSnapshot} {commit : String} {f : Unit → Execution String}
    (hsnapshot : job.snapshot = some snapshot) (hcommit : IsApproved objects sha256 job commit)
    (h : Known objects sha256 job (fun _ branch seen =>
      branch = none ∧ seen = some snapshot.delivery.expectedTargetSha) w)
    (hf : ∀ w, Known objects sha256 job (fun _ _ _ => True) w → Keeps objects sha256 job (f ()) w) :
    Keeps objects sha256 job (Program.call (Effect.push commit) >>= f) w := by
  refine Host.Safe.call_bind stable_known (fun w hw => hw.inv) h ?_
  rintro w choice ⟨⟩ w' ⟨hinv, hunmarked, hbranch, hseen⟩ hexec
  simp only [host, exec, hbranch, if_true, Option.some.injEq, Prod.mk.injEq, true_and] at hexec
  subst hexec
  have hnone := hinv.unpushed hbranch
  refine hf _ ⟨?_, hunmarked, trivial⟩
  exact {
    marked := hinv.marked
    labelled := hinv.labelled
    pushed := by simp [hnone]
    unpushed := fun h => by cases h
    approved := by
      intro push hpush
      rw [hnone] at hpush
      obtain rfl := List.mem_singleton.mp hpush
      exact ⟨hcommit, snapshot, hsnapshot, hseen⟩
    returned := hinv.returned }

theorem infix_toList (a b c : String) : b.toList <:+: (a ++ b ++ c).toList := by
  rw [String.toList_append, String.toList_append]
  exact List.infix_append _ _ _

/-- The body of the new pull request has the marker. -/
theorem marker_infix_pullBody (snapshot : TaskSnapshot) :
    (marker job).toList <:+: (pullBody job snapshot).toList := by
  have hbody : pullBody job snapshot = "Verified and approved local repair.\n\n" ++ marker job ++
      ("\n\n" ++ s!"Source commit: {snapshot.executionSha}") := String.append_assoc
  rw [hbody]
  exact infix_toList _ _ _

/-- **The pull request**, where none has the marker. -/
theorem keeps_createPull {snapshot : TaskSnapshot} {title base : String}
    (h : Known objects sha256 job P w) :
    Keeps objects sha256 job
      (Program.call (Effect.createPull title job.branch base (pullBody job snapshot))) w := by
  rw [← bind_pure (Program.call _)]
  refine Host.Safe.call_bind stable_known (fun w hw => hw.inv) h ?_
  intro w choice url w' hw hexec
  simp only [host, exec, Option.some.injEq, Prod.mk.injEq] at hexec
  obtain ⟨rfl, rfl⟩ := hexec
  refine keeps_ret (hw.inv.addPull fun _ => ⟨rfl, hw.unmarked⟩) (hasPull_addPull ?_)
  simp [isMarked, marker_infix_pullBody]

/-- An empty answer of `ls-remote` says that there is no branch. -/
theorem branch_eq_none {branch : Option String} {name : String}
    (h : (branch.map fun sha => s!"{sha}\trefs/heads/{name}").getD "" = "") : branch = none := by
  cases branch with
  | none => rfl
  | some sha =>
    have hlength := congrArg String.length h
    simp [String.length_append, toString] at hlength

/-- The push, if there is no branch. -/
theorem keeps_pushIfNew {snapshot : TaskSnapshot} {commit existingRef : String}
    {f : Unit → Execution String} (hsnapshot : job.snapshot = some snapshot)
    (hcommit : IsApproved objects sha256 job commit)
    (h : Known objects sha256 job (fun _ branch seen =>
      (existingRef = "" → branch = none) ∧
        seen = some snapshot.delivery.expectedTargetSha) w)
    (hf : ∀ w, Known objects sha256 job (fun _ _ _ => True) w → Keeps objects sha256 job (f ()) w) :
    Keeps objects sha256 job
      (Program.onlyIf (existingRef = "") (Program.call (Effect.push commit)) >>= f) w := by
  unfold Program.onlyIf
  split
  · next hempty => exact keeps_push hsnapshot hcommit (h.mono fun hP => ⟨hP.1 hempty, hP.2⟩) hf
  · exact hf w (h.mono fun _ => trivial)

/-- **In the temporary directory**: only the approved commit is pushed, and
only where there is no branch. -/
theorem keeps_publish {row : JobRow} {snapshot : TaskSnapshot} {credential patch : String}
    {leaseToken : LeaseToken} (hsnapshot : job.snapshot = some snapshot)
    (hpatch : sha256 patch = job.patchDigest) (h : Known objects sha256 job P w) :
    Keeps objects sha256 job (publish job row snapshot credential patch leaseToken) w := by
  unfold publish
  -- The secret, the script that prints it, and the clone.
  refine keeps_look rfl h fun _ w h => ?_
  refine keeps_look rfl h fun _ w h => ?_
  refine keeps_look rfl h fun _ w h => ?_
  -- From the checkout to the commit, each effect builds on what the last one left.
  refine keeps_call (Q := fun _ work _ _ => CheckedOut objects snapshot work) rfl h
    (fun _ _ _ _ _ hexec => checkedOut_of_exec hexec) fun _ w h => ?_
  refine keeps_call (Q := fun _ work _ _ => CheckedOut objects snapshot work ∧ work.patch = patch)
    rfl h (fun _ _ _ _ hwork hexec => written_of_exec hwork hexec) fun _ w h => ?_
  refine keeps_call (Q := fun _ work _ _ => Applied objects snapshot patch work) rfl h
    (fun _ _ _ _ hwork hexec => applied_of_exec hwork hexec) fun _ w h => ?_
  refine keeps_call (Q := fun _ work _ _ => IsApproved objects sha256 job work.head) rfl h
    (fun _ _ _ _ hwork hexec => approved_of_exec hsnapshot hpatch hwork hexec) fun _ w h => ?_
  refine keeps_call (Q := fun commit _ _ _ => IsApproved objects sha256 job commit) rfl h
    (fun _ commit w w' hwork hexec => ?_) fun commit w h => ?_
  · simp only [exec, Option.some.injEq, Prod.mk.injEq] at hexec
    exact hexec.1 ▸ hwork
  -- From here on the clone does not matter: `commit` is the approved one.
  have hcommit := h.known
  refine keeps_ofExcept h.inv fun _ _ => ?_
  refine keeps_look rfl h fun _ w h => ?_
  refine keeps_call (Q := fun existingRef _ branch _ => existingRef = "" → branch = none) rfl h
    (fun _ existingRef w w' _ hexec => ?_) fun existingRef w h => ?_
  · simp only [exec, Option.some.injEq, Prod.mk.injEq] at hexec
    obtain ⟨rfl, rfl⟩ := hexec
    exact branch_eq_none
  refine keeps_ofExcept h.inv fun _ _ => ?_
  -- The check of the target is the last thing before the push but for the lease.
  refine keeps_assertTarget h fun w h => ?_
  refine keeps_assertLease h fun w h => ?_
  refine keeps_pushIfNew hsnapshot hcommit h fun w h => ?_
  refine keeps_assertTarget (P := fun _ _ => True) h fun w h => ?_
  refine keeps_assertLease h fun w h => ?_
  exact keeps_createPull h

/-- The pull request of the task is looked at, if there is one. -/
theorem keeps_inspect {source : Option SnapshotSource} {f : Unit → Execution String}
    (h : Known objects sha256 job P w)
    (hf : ∀ w, Known objects sha256 job P w → Keeps objects sha256 job (f ()) w) :
    Keeps objects sha256 job (inspectSource source >>= f) w := by
  cases source with
  | none => exact hf w h
  | some source => exact keeps_look rfl h fun _ w h => hf w h

theorem sha256_of_approvedPatch {artifact : Option String} {patch : String}
    (h : approvedPatch sha256 job artifact = .ok patch) : sha256 patch = job.patchDigest := by
  have hfilter := orThrow_eq_ok.mp h
  simpa using (Option.filter_eq_some_iff.mp hfilter).2

/-- An effect before anything is known. -/
theorem keeps_before {e : Effect} {f : e.Answer → Execution String} (he : e.isPublic = false)
    (h : Inv objects sha256 job w)
    (hf : ∀ a w, Inv objects sha256 job w → Keeps objects sha256 job (f a) w) :
    Keeps objects sha256 job (Program.call e >>= f) w := by
  refine Host.Safe.call_bind stable_inv (fun _ h => h) h fun w choice a w' h hexec => ?_
  exact hf a w' (h.same (same_of_exec he hexec))

/-- **The temporary directory is removed** on every way out. -/
theorem keeps_removed {p : Execution String} (h : Keeps objects sha256 job p w) :
    Keeps objects sha256 job (p.tryFinally (Program.call Effect.rm)) w := by
  refine Host.Safe.tryFinally h (fun url w hw hurl => ?_) fun err w hw => ?_
  · refine Host.Safe.call_bind (stable_hasPull url) (fun _ h => h.1) (hurl w (.refl w))
      fun w choice a w' h hexec => ?_
    have hrm : exec objects job choice .rm w = some (a, w') := hexec
    have hs : Same job w w' := same_of_exec rfl hrm
    exact keeps_ret (h.1.same hs) (h.2.same hs)
  · exact keeps_before rfl hw fun _ w hw => hw

/-- **Where no pull request has been found.** -/
theorem keeps_deliverNew {row : JobRow} {snapshot : TaskSnapshot} {credential : String}
    {leaseToken : LeaseToken} {existing : List PullRequest}
    (hsnapshot : job.snapshot = some snapshot) (h : Inv objects sha256 job w)
    (hnew : existing = [] → Known objects sha256 job (fun _ _ _ => True) w) :
    Keeps objects sha256 job
      (deliverNew sha256 job row snapshot credential leaseToken existing) w := by
  unfold deliverNew
  refine keeps_ofExcept h fun _ hempty => ?_
  refine keeps_assertTarget (P := fun _ _ => True) (hnew (require_eq_ok.mp hempty)) fun w h => ?_
  refine keeps_inspect h fun w h => ?_
  refine keeps_look rfl h fun artifact w h => ?_
  refine keeps_ofExcept h.inv fun patch hpatch => ?_
  refine keeps_call (Q := fun _ _ _ _ => True) rfl h (fun _ _ _ _ _ _ => trivial) fun _ w h => ?_
  exact keeps_removed (keeps_publish hsnapshot (sha256_of_approvedPatch hpatch) h)

/-- **An execution keeps the invariant**, and returns the URL of a pull
request with the marker. -/
theorem keeps_deliver (leaseToken : LeaseToken) (h : Inv objects sha256 job w) :
    Keeps objects sha256 job (deliver sha256 job leaseToken) w := by
  unfold deliver
  refine keeps_before rfl h fun row w h => ?_
  refine keeps_ofExcept h fun snapshot hsnapshot => ?_
  refine keeps_ofExcept h fun credential _ => ?_
  refine keeps_ofExcept h fun githubRepo hrepo => ?_
  have hlabel : headLabel githubRepo job.branch = label job := by
    rw [orThrow_eq_ok, Option.filter_eq_some_iff] at hrepo
    rw [label, hrepo.1]
    rfl
  -- The list is read in the same step the world is known in.
  refine Host.Safe.call_bind stable_inv (fun _ h => h) h fun w choice existing w' h hexec => ?_
  simp only [host, exec, Option.some.injEq, Prod.mk.injEq, hlabel] at hexec
  obtain ⟨rfl, rfl⟩ := hexec
  split
  · next found hfound =>
    have hmem := List.mem_of_find?_eq_some hfound
    exact keeps_ret h ⟨found, List.mem_of_mem_filter hmem, List.find?_some hfound, rfl⟩
  · exact keeps_deliverNew (orThrow_eq_ok.mp hsnapshot) h (known_of_listed h)

/-! ## Every run -/

/-- **A delivery happens at most once**, whatever becomes of the executions
and of the target branch. -/
theorem delivered_once (objects : GitObjects T) (sha256 : String → String) (job : DeliveryInput)
    (row : JobRow) (artifact : Option String) (target : String)
    (es : List (Host.Event DeliveryError Choice Interference LeaseToken)) :
    DeliveredOnce objects sha256 job
      (((host objects sha256 job).machine { row, artifact, target }).run es).world := by
  refine (Host.kept_of_reachable (Q := fun url w => Inv objects sha256 job w ∧ HasPull job url w)
    stable_inv ?_ ?_ ?_ (Machine.reachable_run _ es)).deliveredOnce
  · intro leaseToken w h
    have henter : Same job w ((host objects sha256 job).enter w) := ⟨rfl, rfl, rfl, rfl⟩
    exact keeps_deliver leaseToken (h.same henter)
  · exact fun url w h hurl => h.leave hurl.2
  · exact inv_init row artifact target

/-- The delivery of the small snapshot, its patch being its own digest. -/
def smallDelivery : DeliveryInput where
  id := "job"
  patchDigest := "patch"
  branch := "arp-fix/task"
  snapshot := some smallSnapshot
  githubRepo := some "a/b"
  repoPath := "/tmp/source"
  createdAt := "2026-10-06T00:00:00.000Z"

def smallObjects : GitObjects String where
  tree sha := if sha = "base" then some "" else none
  apply tree patch := some (tree ++ patch)
  sha commit := commit.tree

def smallHost : Host Effect Effect.Answer DeliveryError String (World String) Choice Interference
    LeaseToken := host smallObjects id smallDelivery

def smallWorld : World String where
  row := ⟨.running, none, some 7, some 100, some "credential"⟩
  artifact := some "patch"
  target := "base"

-- The response to the new pull request is lost, and the target branch moves;
-- the next execution finds the pull request.
example :
    let pull : Choice := ⟨0, "https://github.com/a/b/pull/3"⟩
    let s := (smallHost.machine smallWorld).run
      (.start 7 :: List.replicate 20 (.answered pull) ++ [.lost pull .other, .answered pull,
        .settle, .interfere (.moveTarget "other"), .start 7, .answered pull, .answered pull,
        .settle])
    s.world.returned = ["https://github.com/a/b/pull/3"] ∧ s.world.pushes.length = 1 := by
  decide +kernel

end Deliver

end ControlPlane

end AgentReliability
