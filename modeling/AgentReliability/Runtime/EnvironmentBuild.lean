import AgentReliability.Common.Machine
import Mathlib.Algebra.Ring.Nat
import Mathlib.Data.List.Nodup
import Mathlib.Logic.Function.Basic
import Mathlib.Tactic.Common
/-!
# Environments are built once

`prepare_environment` builds the image of a fingerprint at most once on a
host: a worker looks for the tag, takes the lock file, looks again, and
only then builds. Workers take their steps in any order, the image store
and the build processes theirs in between. A worker that dies gives up the
lock, but not the build it started: that one goes on without it, and may
set the tag after the next worker has built the image again.

The state is that of one fingerprint: the builds of another have a tag, a
lock file and a status file of their own.
-/

namespace AgentReliability

namespace Runtime

namespace EnvironmentBuild

variable {ω ι : Type*}

/-- Where a worker is in `prepare_environment`. -/
inductive Phase (ι : Type*) where
  /-- Before the first look at the tag. -/
  | start
  /-- In the loop that asks for the lock. -/
  | waiting
  /-- It has the lock, and has not looked again. -/
  | locked
  /-- It found no tag and wrote `PREPARING`. -/
  | preparing
  /-- It waits for its `docker build`; how that has ended, once it has. -/
  | building (exit : Option Bool)
  | returned (image : ι)
  | raised
  /-- The process was killed. -/
  | crashed

namespace Phase

/-- Between the `flock` and its release. -/
def inside : Phase ι → Bool
  | locked => true
  | preparing => true
  | building _ => true
  | _ => false

def isPreparing : Phase ι → Bool
  | preparing => true
  | _ => false

/-- Its build process has not ended. -/
def isRunning : Phase ι → Bool
  | building none => true
  | _ => false

theorem isRunning_iff {p : Phase ι} : p.isRunning ↔ p = building none := by
  cases p with
  | building exit => cases exit <;> simp [isRunning]
  | _ => simp [isRunning]

end Phase

/-- What `{fingerprint}.json` says. -/
inductive Status (ι : Type*) where
  | preparing
  | ready (image : ι)
  | failed

structure Host (ω ι : Type*) where
  /-- The image `arp-env:{fingerprint}` names. -/
  tag : Option ι := none
  /-- The worker that has the `flock`. -/
  lock : Option ω := none
  status : Option (Status ι) := none
  phase : ω → Phase ι := fun _ => .start
  /-- The workers whose build process runs, dead ones included. -/
  builds : List ω := []
  /-- The images the tag was given, in order. -/
  tagged : List ι := []
  /-- How often somebody removed the tag. -/
  removed : ℕ := 0
  /-- How many workers died while their build was running. -/
  abandoned : ℕ := 0

inductive Event (ω ι : Type*) where
  /-- The first `images.get(tag)`. -/
  | look (w : ω)
  /-- An attempt at the `flock`. -/
  | tryLock (w : ω)
  /-- The second `images.get(tag)`, under the lock. -/
  | relook (w : ω)
  /-- `Popen` of the build. -/
  | spawn (w : ω)
  /-- The build process of a worker ends: it sets the tag to the image it
  built, or fails. -/
  | exit (w : ω) (image : Option ι)
  /-- The worker finds its build ended. -/
  | poll (w : ω)
  /-- Something raises: the lease check, the deadline, the image store. -/
  | raise (w : ω)
  | crash (w : ω)
  /-- Somebody removes the tag. -/
  | remove

namespace Host

variable [DecidableEq ω] (h : Host ω ι)

def move (w : ω) (p : Phase ι) : Host ω ι := { h with phase := Function.update h.phase w p }

/-- The worker leaves the block that holds the lock file open. -/
def leave (w : ω) (p : Phase ι) : Host ω ι := { h.move w p with lock := none }

/-- The build process of the worker is gone: it has ended, or was
terminated and waited for. -/
def reap (w : ω) : Host ω ι := { h with builds := h.builds.erase w }

def look (w : ω) : Host ω ι :=
  match h.phase w with
  | .start =>
    match h.tag with
    | some image => h.move w (.returned image)
    | none => h.move w .waiting
  | _ => h

def tryLock (w : ω) : Host ω ι :=
  match h.phase w, h.lock with
  | .waiting, none => { h.move w .locked with lock := some w }
  | _, _ => h

def relook (w : ω) : Host ω ι :=
  match h.phase w with
  | .locked =>
    match h.tag with
    | some image => h.leave w (.returned image)
    | none => { h.move w .preparing with status := some .preparing }
  | _ => h

def spawn (w : ω) : Host ω ι :=
  match h.phase w with
  | .preparing => { h.move w (.building none) with builds := h.builds ++ [w] }
  | _ => h

/-- The worker, if it lives, can see how its build has ended. -/
def notice (w : ω) (ok : Bool) : Host ω ι :=
  match h.phase w with
  | .building none => h.move w (.building (some ok))
  | _ => h

def exit (w : ω) (image : Option ι) : Host ω ι :=
  if w ∈ h.builds then
    match image with
    | some image =>
      { (h.reap w).notice w true with tag := some image, tagged := h.tagged ++ [image] }
    | none => (h.reap w).notice w false
  else h

def poll (w : ω) : Host ω ι :=
  match h.phase w with
  | .building (some true) =>
    match h.tag with
    | some image => { h.leave w (.returned image) with status := some (.ready image) }
    -- `images.get(tag)` raises, inside the `try`.
    | none => { h.leave w .raised with status := some .failed }
  | .building (some false) => { h.leave w .raised with status := some .failed }
  | _ => h

def raise (w : ω) : Host ω ι :=
  match h.phase w with
  | .start => h.move w .raised
  | .waiting => h.move w .raised
  | .locked => h.leave w .raised
  | .preparing => h.leave w .raised
  -- The build is terminated and waited for before the lock is released.
  | .building _ => { (h.reap w).leave w .raised with status := some .failed }
  | _ => h

/-- The kernel releases the lock of a process that is killed. -/
def crash (w : ω) : Host ω ι :=
  match h.phase w with
  | .start => h.move w .crashed
  | .waiting => h.move w .crashed
  | .locked => h.leave w .crashed
  | .preparing => h.leave w .crashed
  | .building none => { h.leave w .crashed with abandoned := h.abandoned + 1 }
  | .building (some _) => h.leave w .crashed
  | _ => h

def remove : Host ω ι :=
  match h.tag with
  | some _ => { h with tag := none, removed := h.removed + 1 }
  | none => h

def step (h : Host ω ι) : Event ω ι → Host ω ι
  | .look w => h.look w
  | .tryLock w => h.tryLock w
  | .relook w => h.relook w
  | .spawn w => h.spawn w
  | .exit w image => h.exit w image
  | .poll w => h.poll w
  | .raise w => h.raise w
  | .crash w => h.crash w
  | .remove => h.remove

end Host

/-- One host, from a clean start. -/
def machine (ω ι : Type*) [DecidableEq ω] : Machine (Host ω ι) (Event ω ι) where
  init := {}
  step := Host.step

/-! ## The invariant -/

section

variable [DecidableEq ω]

/-- The holder of the lock has found no tag and has not started its
build. -/
def Host.pending (h : Host ω ι) : ℕ :=
  if h.lock.any fun w => (h.phase w).isPreparing then 1 else 0

/-- The tag is there, or the holder of the lock is about to make it. -/
def Host.covered (h : Host ω ι) : ℕ :=
  if h.tag.isSome || h.lock.any fun w => (h.phase w).isPreparing || (h.phase w).isRunning then 1
  else 0

structure Inv (h : Host ω ι) : Prop where
  /-- The holder of the lock is inside, and nobody else. -/
  holder : ∀ w, (h.phase w).inside ↔ h.lock = some w
  running : ∀ w, (h.phase w).isRunning → w ∈ h.builds
  /-- A build whose worker does not wait for it was abandoned. -/
  builder : ∀ w ∈ h.builds, (h.phase w).isRunning ∨ h.phase w = .crashed
  nodup : h.builds.Nodup
  /-- Every build that was made or goes on is paid for: by the tag, by its
  removal, or by a worker that died. -/
  paid : h.tagged.length + h.builds.length + h.pending ≤ h.removed + h.abandoned + h.covered
  tag : ∀ image, h.tag = some image → image ∈ h.tagged
  returned : ∀ w image, h.phase w = .returned image → image ∈ h.tagged
  ready : ∀ image, h.status = some (.ready image) → image ∈ h.tagged

namespace Inv

variable {h : Host ω ι} {w : ω}

omit [DecidableEq ω] in
/-- The worker that holds the lock is the one that is inside. -/
theorem eq_of_inside (hi : Inv h) {v : ω} (hw : h.lock = some w) (hv : (h.phase v).inside) :
    v = w := by
  have hlock := (hi.holder v).mp hv
  rw [hw] at hlock
  exact (Option.some.inj hlock).symm

omit [DecidableEq ω] in
/-- What is paid for, while a worker holds the lock. -/
theorem paid_of_lock (hi : Inv h) (hw : h.lock = some w) :
    h.tagged.length + h.builds.length + (if (h.phase w).isPreparing then 1 else 0) ≤
      h.removed + h.abandoned +
        if h.tag.isSome || ((h.phase w).isPreparing || (h.phase w).isRunning) then 1 else 0 := by
  have hpaid := hi.paid
  unfold Host.pending Host.covered at hpaid
  rw [hw] at hpaid
  exact hpaid

/-- A worker that holds no lock moves on outside. -/
theorem outside (hi : Inv h) {p : Phase ι} (hfrom : (h.phase w).inside = false)
    (hto : p.inside = false) (hbuild : w ∈ h.builds → p = .crashed)
    (himage : ∀ image, p = .returned image → image ∈ h.tagged) : Inv (h.move w p) := by
  have hlock : h.lock ≠ some w := by
    intro hlock
    rw [(hi.holder w).mpr hlock] at hfrom
    exact Bool.noConfusion hfrom
  have hrun : p.isRunning = false := by
    cases p <;> simp_all [Phase.inside, Phase.isRunning]
  -- The holder of the lock, if there is one, is another worker.
  have hother : ∀ v, h.lock = some v → (h.move w p).phase v = h.phase v := by
    intro v hv
    refine Function.update_of_ne ?_ _ _
    rintro rfl
    exact hlock hv
  have hpending : (h.move w p).pending = h.pending := by
    unfold Host.pending
    cases hv : h.lock with
    | none => simp [Host.move, hv]
    | some v =>
      have := hother v hv
      simp [Host.move, hv] at this ⊢
      rw [this]
  have hcovered : (h.move w p).covered = h.covered := by
    unfold Host.covered
    cases hv : h.lock with
    | none => simp [Host.move, hv]
    | some v =>
      have := hother v hv
      simp [Host.move, hv] at this ⊢
      rw [this]
  refine ⟨fun v => ?_, fun v hv => ?_, fun v hv => ?_, hi.nodup, ?_, hi.tag, fun v image hv => ?_,
    hi.ready⟩
  · by_cases hvw : v = w
    · subst hvw
      simp [Host.move, hto, hlock]
    · simpa [Host.move, hvw] using hi.holder v
  · by_cases hvw : v = w
    · subst hvw
      simp [Host.move, hrun] at hv
    · exact hi.running v (by simpa [Host.move, hvw] using hv)
  · by_cases hvw : v = w
    · subst hvw
      exact .inr (by simpa [Host.move] using hbuild hv)
    · simpa [Host.move, hvw] using hi.builder v hv
  · rw [hpending, hcovered]
    exact hi.paid
  · by_cases hvw : v = w
    · subst hvw
      exact himage image (by simpa [Host.move] using hv)
    · exact hi.returned v image (by simpa [Host.move, hvw] using hv)

/-- The worker that holds the lock leaves, and a build of its own with it
unless it was killed. -/
theorem leave (hi : Inv h) (hw : h.lock = some w) {p : Phase ι} (hto : p.inside = false)
    {builds : List ω} (hsub : builds.Sublist h.builds) (hbuild : w ∈ builds → p = .crashed)
    (himage : ∀ image, p = .returned image → image ∈ h.tagged) {status : Option (Status ι)}
    (hready : ∀ image, status = some (.ready image) → image ∈ h.tagged) {abandoned : ℕ}
    (hpaid : h.tagged.length + builds.length ≤
      h.removed + abandoned + if h.tag.isSome then 1 else 0) :
    Inv { h.leave w p with builds, status, abandoned } := by
  have hrun : p.isRunning = false := by
    cases p <;> simp_all [Phase.inside, Phase.isRunning]
  have houtside : ∀ v, v ≠ w → (h.phase v).inside = false := by
    intro v hv
    rw [Bool.eq_false_iff]
    exact fun hin => hv (hi.eq_of_inside hw hin)
  have hidle : ∀ v, v ≠ w → (h.phase v).isRunning = false := by
    intro v hv
    have := houtside v hv
    cases hp : h.phase v <;> simp_all [Phase.inside, Phase.isRunning]
  refine ⟨fun v => ?_, fun v hv => ?_, fun v hv => ?_, hi.nodup.sublist hsub, ?_, hi.tag,
    fun v image hv => ?_, hready⟩
  · by_cases hvw : v = w
    · subst hvw
      simp [Host.leave, Host.move, hto]
    · simp [Host.leave, Host.move, hvw, houtside v hvw]
  · by_cases hvw : v = w
    · subst hvw
      simp [Host.leave, Host.move, hrun] at hv
    · simp [Host.leave, Host.move, hvw, hidle v hvw] at hv
  · by_cases hvw : v = w
    · subst hvw
      exact .inr (by simpa [Host.leave, Host.move] using hbuild hv)
    · simpa [Host.leave, Host.move, hvw] using hi.builder v (hsub.mem hv)
  · simpa [Host.pending, Host.covered, Host.leave, Host.move] using hpaid
  · by_cases hvw : v = w
    · subst hvw
      exact himage image (by simpa [Host.leave, Host.move] using hv)
    · exact hi.returned v image (by simpa [Host.leave, Host.move, hvw] using hv)

/-- The worker that holds the lock moves on inside. -/
theorem advance (hi : Inv h) (hw : h.lock = some w) {p : Phase ι} (hto : p.inside = true)
    {builds : List ω} (hnodup : builds.Nodup) (hmem : ∀ v, v ≠ w → v ∈ builds → v ∈ h.builds)
    (hbuild : w ∈ builds ↔ p.isRunning = true) {status : Option (Status ι)} {tag : Option ι}
    {tagged : List ι} (htag : ∀ image, tag = some image → image ∈ tagged)
    (htagged : ∀ image ∈ h.tagged, image ∈ tagged)
    (hready : ∀ image, status = some (.ready image) → image ∈ h.tagged)
    (hpaid : tagged.length + builds.length + (if p.isPreparing then 1 else 0) ≤
      h.removed + h.abandoned + if tag.isSome || (p.isPreparing || p.isRunning) then 1 else 0) :
    Inv { h.move w p with builds, status, tag, tagged } := by
  have hidle : ∀ v, v ≠ w → (h.phase v).isRunning = false := by
    intro v hv
    have hout : (h.phase v).inside = false := by
      rw [Bool.eq_false_iff]
      exact fun hin => hv (hi.eq_of_inside hw hin)
    cases hp : h.phase v <;> simp_all [Phase.inside, Phase.isRunning]
  refine ⟨fun v => ?_, fun v hv => ?_, fun v hv => ?_, hnodup, ?_, htag, fun v image hv => ?_,
    fun image hs => htagged image (hready image hs)⟩
  · by_cases hvw : v = w
    · subst hvw
      simp [Host.move, hto, hw]
    · simpa [Host.move, hvw] using hi.holder v
  · by_cases hvw : v = w
    · subst hvw
      exact hbuild.mpr (by simpa [Host.move] using hv)
    · simp [Host.move, hvw, hidle v hvw] at hv
  · by_cases hvw : v = w
    · subst hvw
      exact .inl (by simpa [Host.move] using hbuild.mp hv)
    · simpa [Host.move, hvw] using hi.builder v (hmem v hvw hv)
  · simpa [Host.pending, Host.covered, Host.move, hw] using hpaid
  · by_cases hvw : v = w
    · subst hvw
      have hp : p = .returned image := by simpa [Host.move] using hv
      rw [hp] at hto
      exact Bool.noConfusion hto
    · exact htagged image (hi.returned v image (by simpa [Host.move, hvw] using hv))

/-! ## One event -/

theorem look (hi : Inv h) : Inv (h.look w) := by
  unfold Host.look
  split
  · next hphase =>
    have hin : (h.phase w).inside = false := by rw [hphase]; rfl
    have hbuild : w ∉ h.builds := by
      intro hw
      rcases hi.builder w hw with hb | hb <;> simp [hphase, Phase.isRunning] at hb
    split
    · next image htag =>
      refine hi.outside hin rfl (fun hw => absurd hw hbuild) fun j hj => ?_
      obtain rfl := Phase.returned.inj hj
      exact hi.tag _ htag
    · exact hi.outside hin rfl (fun hw => absurd hw hbuild) fun j hj => by simp at hj
  · exact hi

theorem tryLock (hi : Inv h) : Inv (h.tryLock w) := by
  unfold Host.tryLock
  split
  · next hphase hlock =>
    have hfree : ∀ v, (h.phase v).inside = false := by
      intro v
      rw [Bool.eq_false_iff]
      intro hin
      have := (hi.holder v).mp hin
      rw [hlock] at this
      exact absurd this (by simp)
    have hpaid := hi.paid
    simp only [Host.pending, Host.covered, hlock, Option.any_none, Bool.or_false] at hpaid
    refine ⟨fun v => ?_, fun v hv => ?_, fun v hv => ?_, hi.nodup, ?_, hi.tag, fun v image hv => ?_,
      hi.ready⟩
    · by_cases hvw : v = w
      · subst hvw
        simp [Host.move, Phase.inside]
      · have hne : w ≠ v := fun he => hvw he.symm
        simp [Host.move, hvw, hfree v, hne]
    · by_cases hvw : v = w
      · subst hvw
        simp [Host.move, Phase.isRunning] at hv
      · exact hi.running v (by simpa [Host.move, hvw] using hv)
    · by_cases hvw : v = w
      · subst hvw
        rcases hi.builder v hv with hb | hb <;> simp [hphase, Phase.isRunning] at hb
      · simpa [Host.move, hvw] using hi.builder v hv
    · simpa [Host.pending, Host.covered, Host.move, Phase.isPreparing, Phase.isRunning] using hpaid
    · by_cases hvw : v = w
      · subst hvw
        simp [Host.move] at hv
      · exact hi.returned v image (by simpa [Host.move, hvw] using hv)
  · exact hi

omit [DecidableEq ω] in
theorem not_building (hi : Inv h) (hrun : (h.phase w).isRunning = false)
    (hcrash : h.phase w ≠ .crashed) : w ∉ h.builds := by
  intro hw
  rcases hi.builder w hw with hb | hb
  · rw [hrun] at hb
    exact Bool.noConfusion hb
  · exact hcrash hb

theorem relook (hi : Inv h) : Inv (h.relook w) := by
  unfold Host.relook
  split
  · next hphase =>
    have hlock : h.lock = some w := (hi.holder w).mp (by rw [hphase]; rfl)
    have hbuild : w ∉ h.builds := hi.not_building (by rw [hphase]; rfl) (by simp [hphase])
    have hpaid := hi.paid_of_lock hlock
    simp only [hphase, Phase.isPreparing, Phase.isRunning, Bool.or_false, Bool.false_eq_true,
      if_false] at hpaid
    split
    · next image htag =>
      refine hi.leave hlock rfl (List.Sublist.refl _) (fun hw => absurd hw hbuild) (fun j hj => ?_)
        hi.ready hpaid
      obtain rfl := Phase.returned.inj hj
      exact hi.tag _ htag
    · next htag =>
      -- The tag is missing: the build to come takes its place.
      have hnext : h.tagged.length + h.builds.length + 1 ≤ h.removed + h.abandoned + 1 := by
        rw [htag] at hpaid
        simp only [Option.isSome_none, Bool.false_eq_true, if_false] at hpaid
        omega
      refine hi.advance hlock rfl hi.nodup (fun v _ hv => hv) ?_ hi.tag (fun _ hj => hj)
        (fun image hs => by simp at hs) ?_
      · exact ⟨fun hw => absurd hw hbuild, fun hw => by simp [Phase.isRunning] at hw⟩
      · simpa [Phase.isPreparing, Host.move] using hnext
  · exact hi

theorem spawn (hi : Inv h) : Inv (h.spawn w) := by
  unfold Host.spawn
  split
  · next hphase =>
    have hlock : h.lock = some w := (hi.holder w).mp (by rw [hphase]; rfl)
    have hbuild : w ∉ h.builds := hi.not_building (by rw [hphase]; rfl) (by simp [hphase])
    have hpaid := hi.paid_of_lock hlock
    simp only [hphase, Phase.isPreparing, Bool.true_or, Bool.or_true, if_true] at hpaid
    refine hi.advance hlock rfl ?_ (fun v hv hmem => ?_) (by simp [Phase.isRunning]) hi.tag
      (fun _ hj => hj) hi.ready ?_
    · exact List.nodup_append.mpr ⟨hi.nodup, List.nodup_singleton _, fun a ha b hb => by
        rw [List.mem_singleton.mp hb]
        rintro rfl
        exact hbuild ha⟩
    · rcases List.mem_append.mp hmem with hmem | hmem
      · exact hmem
      · exact absurd (List.mem_singleton.mp hmem) hv
    · have hnext : h.tagged.length + (h.builds.length + 1) ≤ h.removed + h.abandoned + 1 := by omega
      simpa [Phase.isPreparing, Phase.isRunning, Host.move] using hnext
  · exact hi

/-- A build without a worker ends. -/
theorem orphan (hi : Inv h) (hw : w ∈ h.builds) (hphase : h.phase w = .crashed) {tag : Option ι}
    {tagged : List ι} (htag : ∀ image, tag = some image → image ∈ tagged)
    (htagged : ∀ image ∈ h.tagged, image ∈ tagged)
    (hlength : tagged.length ≤ h.tagged.length ∨
      tagged.length ≤ h.tagged.length + 1 ∧ tag.isSome) :
    Inv { h with builds := h.builds.erase w, tag, tagged } := by
  have hlen : (h.builds.erase w).length + 1 = h.builds.length := by
    have := List.length_erase_of_mem hw
    have := List.length_pos_of_mem hw
    omega
  refine ⟨hi.holder, fun v hv => ?_, fun v hv => hi.builder v (List.mem_of_mem_erase hv),
    hi.nodup.erase w, ?_, htag, fun v image hv => htagged image (hi.returned v image hv),
    fun image hs => htagged image (hi.ready image hs)⟩
  · have hvw : v ≠ w := by
      rintro rfl
      simp [hphase, Phase.isRunning] at hv
    exact (List.mem_erase_of_ne hvw).mpr (hi.running v hv)
  · have hpaid := hi.paid
    have hpending : Host.pending { h with builds := h.builds.erase w, tag, tagged } = h.pending := rfl
    rw [hpending]
    have hcovered : tagged.length + h.covered ≤ h.tagged.length + 1 +
        Host.covered { h with builds := h.builds.erase w, tag, tagged } := by
      unfold Host.covered
      rcases hlength with hlength | ⟨hlength, hsome⟩
      · split <;> split <;> omega
      · simp only [hsome, Bool.true_or, if_true]
        split <;> omega
    show tagged.length + (h.builds.erase w).length + h.pending ≤ h.removed + h.abandoned + _
    omega

/-- The build of the worker that waits for it ends. -/
theorem ended (hi : Inv h) (hphase : h.phase w = .building none) {ok : Bool} {tag : Option ι}
    {tagged : List ι} (htag : ∀ image, tag = some image → image ∈ tagged)
    (htagged : ∀ image ∈ h.tagged, image ∈ tagged)
    (hlength : tagged.length ≤ h.tagged.length ∨
      tagged.length ≤ h.tagged.length + 1 ∧ tag.isSome) :
    Inv { h.move w (.building (some ok)) with builds := h.builds.erase w, tag, tagged } := by
  have hlock : h.lock = some w := (hi.holder w).mp (by rw [hphase]; rfl)
  have hw : w ∈ h.builds := hi.running w (by rw [hphase]; rfl)
  have hpaid := hi.paid_of_lock hlock
  simp only [hphase, Phase.isPreparing, Phase.isRunning, Bool.or_true, Bool.false_eq_true,
    if_false, if_true] at hpaid
  have hlen : (h.builds.erase w).length + 1 = h.builds.length := by
    have := List.length_erase_of_mem hw
    have := List.length_pos_of_mem hw
    omega
  have hnext : tagged.length + (h.builds.erase w).length ≤
      h.removed + h.abandoned + if tag.isSome then 1 else 0 := by
    rcases hlength with hlength | ⟨hlength, hsome⟩
    · omega
    · rw [if_pos hsome]
      omega
  refine hi.advance hlock rfl (hi.nodup.erase w) (fun v _ hv => List.mem_of_mem_erase hv) ?_ htag
    htagged hi.ready ?_
  · exact ⟨fun hmem => absurd hmem hi.nodup.not_mem_erase,
      fun hrun => by simp [Phase.isRunning] at hrun⟩
  · simpa [Phase.isPreparing, Phase.isRunning, Host.move] using hnext

theorem exit (hi : Inv h) {image : Option ι} : Inv (h.exit w image) := by
  unfold Host.exit
  split
  · next hw =>
    have hnotice : ∀ ok, (h.reap w).notice w ok = if (h.phase w).isRunning then
        { h.move w (.building (some ok)) with builds := h.builds.erase w }
      else { h with builds := h.builds.erase w } := by
      intro ok
      unfold Host.notice Host.reap
      cases hphase : h.phase w with
      | building result =>
        cases result
        · simp [Phase.isRunning]
          rfl
        · simp [Phase.isRunning]
      | _ => simp [Phase.isRunning]
    cases image with
    | some image =>
      have htag : ∀ j, some image = some j → j ∈ h.tagged ++ [image] := by
        rintro j hj
        obtain rfl := Option.some.inj hj
        simp
      have htagged : ∀ j ∈ h.tagged, j ∈ h.tagged ++ [image] :=
        fun j hj => List.mem_append_left _ hj
      simp only [hnotice]
      rcases hi.builder w hw with hrun | hcrash
      · rw [if_pos hrun]
        exact hi.ended (Phase.isRunning_iff.mp hrun) htag htagged (.inr ⟨by simp, rfl⟩)
      · rw [if_neg (by rw [hcrash]; simp [Phase.isRunning])]
        exact hi.orphan hw hcrash htag htagged (.inr ⟨by simp, rfl⟩)
    | none =>
      simp only [hnotice]
      rcases hi.builder w hw with hrun | hcrash
      · rw [if_pos hrun]
        exact hi.ended (Phase.isRunning_iff.mp hrun) hi.tag (fun _ hj => hj) (.inl (Nat.le_refl _))
      · rw [if_neg (by rw [hcrash]; simp [Phase.isRunning])]
        exact hi.orphan hw hcrash hi.tag (fun _ hj => hj) (.inl (Nat.le_refl _))
  · exact hi

/-- A worker that holds the lock gives up, and its build is reaped. -/
theorem giveUp (hi : Inv h) (hw : h.lock = some w) {status : Option (Status ι)}
    (hready : ∀ image, status = some (.ready image) → image ∈ h.tagged) :
    Inv { (h.reap w).leave w .raised with status } := by
  have hpaid := hi.paid_of_lock hw
  have hsub : (h.builds.erase w).Sublist h.builds := List.erase_sublist
  have hmem : w ∉ h.builds.erase w := hi.nodup.not_mem_erase
  have hnext : h.tagged.length + (h.builds.erase w).length ≤
      h.removed + h.abandoned + if h.tag.isSome then 1 else 0 := by
    have hlen := hsub.length_le
    cases hp : h.phase w with
    | building result =>
      cases result with
      | none =>
        have hbuild : w ∈ h.builds := hi.running w (by rw [hp]; rfl)
        have := List.length_erase_of_mem hbuild
        have := List.length_pos_of_mem hbuild
        simp [hp, Phase.isPreparing, Phase.isRunning] at hpaid
        omega
      | some ok =>
        simp [hp, Phase.isPreparing, Phase.isRunning] at hpaid
        omega
    | preparing =>
      simp [hp, Phase.isPreparing, Phase.isRunning] at hpaid
      omega
    | _ =>
      simp [hp, Phase.isPreparing, Phase.isRunning] at hpaid
      omega
  exact hi.leave hw rfl hsub (fun hm => absurd hm hmem) (fun image hj => by simp at hj) hready hnext

/-- A worker that holds the lock, with no build of its own, leaves. -/
theorem leaveIdle (hi : Inv h) (hin : (h.phase w).inside) (hrun : (h.phase w).isRunning = false)
    {p : Phase ι} (hto : p.inside = false) (himage : ∀ image, p = .returned image → image ∈ h.tagged)
    {status : Option (Status ι)} (hready : ∀ image, status = some (.ready image) → image ∈ h.tagged) :
    Inv { h.leave w p with status } := by
  have hlock : h.lock = some w := (hi.holder w).mp hin
  have hbuild : w ∉ h.builds := hi.not_building hrun (by
    intro hcrash
    rw [hcrash] at hin
    exact Bool.noConfusion hin)
  have hpaid := hi.paid_of_lock hlock
  have hnext : h.tagged.length + h.builds.length ≤
      h.removed + h.abandoned + if h.tag.isSome then 1 else 0 := by
    rw [hrun, Bool.or_false] at hpaid
    cases hprep : (h.phase w).isPreparing with
    | true =>
      simp only [hprep, Bool.or_true, if_true] at hpaid
      omega
    | false =>
      simp only [hprep, Bool.or_false, Bool.false_eq_true, if_false] at hpaid
      omega
  exact hi.leave hlock hto (List.Sublist.refl _) (fun hw => absurd hw hbuild) himage hready hnext

theorem poll (hi : Inv h) : Inv (h.poll w) := by
  unfold Host.poll
  split
  · next hphase =>
    have hin : (h.phase w).inside := by rw [hphase]; rfl
    have hrun : (h.phase w).isRunning = false := by rw [hphase]; rfl
    split
    · next image htag =>
      have himage : ∀ j, Phase.returned image = .returned j → j ∈ h.tagged := by
        rintro j hj
        obtain rfl := Phase.returned.inj hj
        exact hi.tag _ htag
      refine hi.leaveIdle hin hrun rfl himage fun j hj => himage j ?_
      rw [Status.ready.inj (Option.some.inj hj)]
    · exact hi.leaveIdle hin hrun rfl (fun _ hj => by simp at hj) fun _ hj => by simp at hj
  · next hphase =>
    exact hi.leaveIdle (by rw [hphase]; rfl) (by rw [hphase]; rfl) rfl (fun _ hj => by simp at hj)
      fun _ hj => by simp at hj
  · exact hi

theorem raise (hi : Inv h) : Inv (h.raise w) := by
  unfold Host.raise
  split
  · next hphase =>
    exact hi.outside (by rw [hphase]; rfl) rfl
      (fun hw => absurd hw (hi.not_building (by rw [hphase]; rfl) (by simp [hphase])))
      fun _ hj => by simp at hj
  · next hphase =>
    exact hi.outside (by rw [hphase]; rfl) rfl
      (fun hw => absurd hw (hi.not_building (by rw [hphase]; rfl) (by simp [hphase])))
      fun _ hj => by simp at hj
  · next hphase =>
    exact hi.leaveIdle (by rw [hphase]; rfl) (by rw [hphase]; rfl) rfl (fun _ hj => by simp at hj)
      hi.ready
  · next hphase =>
    exact hi.leaveIdle (by rw [hphase]; rfl) (by rw [hphase]; rfl) rfl (fun _ hj => by simp at hj)
      hi.ready
  · next result hphase =>
    exact hi.giveUp ((hi.holder w).mp (by rw [hphase]; rfl)) fun _ hj => by simp at hj
  · exact hi

/-- A worker that is killed while its build runs leaves the build behind. -/
theorem abandon (hi : Inv h) (hphase : h.phase w = .building none) :
    Inv { h.leave w .crashed with abandoned := h.abandoned + 1 } := by
  have hlock : h.lock = some w := (hi.holder w).mp (by rw [hphase]; rfl)
  have hpaid := hi.paid_of_lock hlock
  simp only [hphase, Phase.isPreparing, Phase.isRunning, Bool.or_true, Bool.false_eq_true,
    if_false, if_true] at hpaid
  have hnext : h.tagged.length + h.builds.length ≤
      h.removed + (h.abandoned + 1) + if h.tag.isSome then 1 else 0 := by
    omega
  exact hi.leave hlock rfl (List.Sublist.refl _) (fun _ => rfl) (fun _ hj => by simp at hj) hi.ready
    hnext

theorem crash (hi : Inv h) : Inv (h.crash w) := by
  unfold Host.crash
  split
  · next hphase =>
    exact hi.outside (by rw [hphase]; rfl) rfl (fun _ => rfl) fun _ hj => by simp at hj
  · next hphase =>
    exact hi.outside (by rw [hphase]; rfl) rfl (fun _ => rfl) fun _ hj => by simp at hj
  · next hphase =>
    exact hi.leaveIdle (by rw [hphase]; rfl) (by rw [hphase]; rfl) rfl (fun _ hj => by simp at hj)
      hi.ready
  · next hphase =>
    exact hi.leaveIdle (by rw [hphase]; rfl) (by rw [hphase]; rfl) rfl (fun _ hj => by simp at hj)
      hi.ready
  · next hphase => exact hi.abandon hphase
  · next result hphase =>
    exact hi.leaveIdle (by rw [hphase]; rfl) (by rw [hphase]; rfl) rfl (fun _ hj => by simp at hj)
      hi.ready
  · exact hi

omit [DecidableEq ω] in
theorem remove (hi : Inv h) : Inv h.remove := by
  unfold Host.remove
  split
  · next image htag =>
    refine ⟨hi.holder, hi.running, hi.builder, hi.nodup, ?_, fun _ hj => by simp at hj, hi.returned,
      hi.ready⟩
    have hpaid := hi.paid
    have hle : h.covered ≤ 1 := by
      unfold Host.covered
      split <;> omega
    show h.tagged.length + h.builds.length + h.pending ≤ h.removed + 1 + h.abandoned + _
    omega
  · exact hi

theorem init : Inv (machine ω ι).init where
  holder := fun w => by simp [machine, Phase.inside]
  running := fun w hw => by simp [machine, Phase.isRunning] at hw
  builder := fun w hw => by simp [machine] at hw
  nodup := List.nodup_nil
  paid := by simp [machine, Host.pending]
  tag := fun image hj => by simp [machine] at hj
  returned := fun w image hj => by simp [machine] at hj
  ready := fun image hj => by simp [machine] at hj

theorem step (hi : Inv h) (e : Event ω ι) : Inv (h.step e) := by
  cases e with
  | look w => exact hi.look
  | tryLock w => exact hi.tryLock
  | relook w => exact hi.relook
  | spawn w => exact hi.spawn
  | exit w image => exact hi.exit
  | poll w => exact hi.poll
  | raise w => exact hi.raise
  | crash w => exact hi.crash
  | remove => exact hi.remove

end Inv

theorem inv_of_reachable {h : Host ω ι} (hr : (machine ω ι).Reachable h) : Inv h :=
  (machine ω ι).invariant Inv.init (fun _ e hi => hi.step e) hr

/-- **An environment is built once.** In every run of any number of workers
on one host, at most one worker at a time is between the lock and its
release; what `prepare_environment` returns, and what the status file calls
ready, is an image a build has given the tag; and the tag is given an image
at most once, and once more for each time somebody removes it or a worker
dies over its running build. Where neither happens, all workers return the
same image. -/
theorem built_once (es : List (Event ω ι)) :
    (∀ v w, (((machine ω ι).run es).phase v).inside → (((machine ω ι).run es).phase w).inside →
      v = w) ∧
    (∀ w image, ((machine ω ι).run es).phase w = .returned image →
      image ∈ ((machine ω ι).run es).tagged) ∧
    (∀ image, ((machine ω ι).run es).status = some (.ready image) →
      image ∈ ((machine ω ι).run es).tagged) ∧
    ((machine ω ι).run es).tagged.length ≤
      1 + ((machine ω ι).run es).removed + ((machine ω ι).run es).abandoned ∧
    (((machine ω ι).run es).removed = 0 → ((machine ω ι).run es).abandoned = 0 →
      ∀ v w image image', ((machine ω ι).run es).phase v = .returned image →
        ((machine ω ι).run es).phase w = .returned image' → image = image') := by
  have hi := inv_of_reachable ((machine ω ι).reachable_run es)
  generalize (machine ω ι).run es = h at hi
  have hlength : h.tagged.length ≤ 1 + h.removed + h.abandoned := by
    have hpaid := hi.paid
    have hle : h.covered ≤ 1 := by
      unfold Host.covered
      split <;> omega
    omega
  refine ⟨fun v w hv hw => hi.eq_of_inside ((hi.holder w).mp hw) hv, hi.returned, hi.ready, hlength,
    fun hremoved habandoned v w image image' hv hw => ?_⟩
  -- There is one image at most to return.
  have hone : h.tagged.length ≤ 1 := by omega
  obtain ⟨i, hi'⟩ := List.getElem_of_mem (hi.returned v image hv)
  obtain ⟨j, hj'⟩ := List.getElem_of_mem (hi.returned w image' hw)
  obtain ⟨hi_lt, rfl⟩ := hi'
  obtain ⟨hj_lt, rfl⟩ := hj'
  have hij : i = j := by omega
  subst hij
  rfl

/-- A worker dies over its build, the next one builds the image again, and
then the first build sets the tag. -/
def abandonedRun : List (Event ℕ ℕ) := [
  .look 0, .tryLock 0, .relook 0, .spawn 0, .crash 0,
  .look 1, .tryLock 1, .relook 1, .spawn 1, .exit 1 (some 11), .poll 1,
  .exit 0 (some 10), .look 2]

example : (((machine ℕ ℕ).run abandonedRun).phase 1, ((machine ℕ ℕ).run abandonedRun).phase 2) =
    (.returned 11, .returned 10) := rfl

end

end EnvironmentBuild

end Runtime

end AgentReliability
