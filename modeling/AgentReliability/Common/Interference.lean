import AgentReliability.Common.Machine
import AgentReliability.Common.Program
/-!
# Programs that run one after another, with interference

A host runs one program at a time on a world that others change between any
two of its effects. An effect may be carried out and answered, it may fail
before it is carried out, or it may be carried out and its answer be lost;
and the host may crash wherever it waits. A program is safe if it keeps an
invariant of the world whatever happens, and a host whose programs are safe
keeps it for ever.
-/

namespace AgentReliability

/-- **A host**: what effects do to its world, what others do to it, and the
programs it starts. `C` is what an effect leaves open, `X` what others can
do, `T` what a program is started with. -/
structure Host (E : Type) (A : E → Type) (ε α W C X T : Type) where
  exec : C → (e : E) → W → Option (A e × W)
  interfere : X → W → W
  program : T → Program E A ε α
  /-- A program is started. -/
  enter : W → W
  /-- A program has returned. -/
  leave : α → W → W

namespace Host

variable {E : Type} {A : E → Type} {ε α β γ W C X T : Type} (H : Host E A ε α W C X T)

/-- What others do between two steps. -/
def Rely (w w' : W) : Prop := ∃ xs : List X, xs.foldl (fun w x => H.interfere x w) w = w'

/-- What others leave as it is. -/
def Stable (K : W → Prop) : Prop := ∀ x w, K w → K (H.interfere x w)

variable {H}

theorem Rely.refl (w : W) : H.Rely w w := ⟨[], rfl⟩

theorem Rely.trans {a b c : W} (h : H.Rely a b) (h' : H.Rely b c) : H.Rely a c := by
  obtain ⟨xs, rfl⟩ := h
  obtain ⟨ys, rfl⟩ := h'
  exact ⟨xs ++ ys, by rw [List.foldl_append]⟩

theorem Rely.one (x : X) (w : W) : H.Rely w (H.interfere x w) := ⟨[x], rfl⟩

theorem Stable.rely {K : W → Prop} (hK : H.Stable K) {w w' : W} (h : H.Rely w w') (hw : K w) :
    K w' := by
  obtain ⟨xs, rfl⟩ := h
  induction xs generalizing w with
  | nil => exact hw
  | cons x xs ih => exact ih (hK x w hw)

/-! ## Safe programs -/

section Safe

variable (H) (I : W → Prop)

/-- **The program keeps the invariant, and ends in `Q` if it returns,**
whatever others do and whichever effects fail. -/
def Safe (Q : β → W → Prop) : Program E A ε β → W → Prop
  | .ret b, w => I w ∧ ∀ w', H.Rely w w' → Q b w'
  | .raise _, w => I w
  | .perform e k, w => I w ∧ ∀ w', H.Rely w w' →
      (∀ err, Safe Q (k (.error err)) w') ∧
        ∀ c a w'', H.exec c e w' = some (a, w'') →
          Safe Q (k (.ok a)) w'' ∧ ∀ err, Safe Q (k (.error err)) w''

variable {H I} {Q : β → W → Prop} {w : W}

theorem Safe.inv {p : Program E A ε β} (h : H.Safe I Q p w) : I w := by
  cases p with
  | ret b => exact h.1
  | raise err => exact h
  | perform e k => exact h.1

/-- A safe program stays safe while it waits. -/
theorem Safe.rely (hI : H.Stable I) {p : Program E A ε β} (h : H.Safe I Q p w) {w' : W}
    (hw : H.Rely w w') : H.Safe I Q p w' := by
  cases p with
  | ret b => exact ⟨hI.rely hw h.1, fun w'' h' => h.2 w'' (hw.trans h')⟩
  | raise err => exact hI.rely hw h
  | perform e k => exact ⟨hI.rely hw h.1, fun w'' h' => h.2 w'' (hw.trans h')⟩

theorem Safe.ret {b : β} {K : W → Prop} (hK : H.Stable K) (hI : ∀ w, K w → I w)
    (hQ : ∀ w, K w → Q b w) (hw : K w) : H.Safe I Q (.ret b) w :=
  ⟨hI w hw, fun w' h => hQ w' (hK.rely h hw)⟩

/-- **An effect**: what is known before it, and what it does. -/
theorem Safe.call_bind {K : W → Prop} (hK : H.Stable K) (hI : ∀ w, K w → I w) {e : E}
    {f : A e → Program E A ε β} (hw : K w)
    (h : ∀ w c a w', K w → H.exec c e w = some (a, w') → H.Safe I Q (f a) w') :
    H.Safe I Q (Program.call e >>= f) w := by
  refine ⟨hI w hw, fun w' hrely => ?_⟩
  have hw' := hK.rely hrely hw
  refine ⟨fun err => hI w' hw', fun c a w'' hexec => ?_⟩
  have hnext := h w' c a w'' hw' hexec
  exact ⟨hnext, fun err => hnext.inv⟩

theorem Safe.ofExcept_bind {x : Except ε γ} {f : γ → Program E A ε β} (hw : I w)
    (h : ∀ a, x = .ok a → H.Safe I Q (f a) w) : H.Safe I Q (Program.ofExcept x >>= f) w := by
  cases x with
  | error err => exact hw
  | ok a => exact h a rfl

/-- **A `finally` block** that is safe on both ways out. -/
theorem Safe.tryFinally {p : Program E A ε β} {block : Program E A ε Unit} (hp : H.Safe I Q p w)
    (hok : ∀ b w, I w → (∀ w', H.Rely w w' → Q b w') →
      H.Safe I Q (block.bind fun _ => .ret b) w)
    (herr : ∀ err w, I w → H.Safe I Q (block.bind fun _ => .raise err) w) :
    H.Safe I Q (p.tryFinally block) w := by
  induction p generalizing w with
  | ret b => exact hok b w hp.1 hp.2
  | raise err => exact herr err w hp
  | perform e k ih =>
    refine ⟨hp.1, fun w' hrely => ⟨fun err => ih _ ((hp.2 w' hrely).1 err), ?_⟩⟩
    intro c a w'' hexec
    obtain ⟨hdone, hlost⟩ := (hp.2 w' hrely).2 c a w'' hexec
    exact ⟨ih _ hdone, fun err => ih _ (hlost err)⟩

end Safe

/-! ## The host -/

/-- The world, and the program that runs. -/
structure State (E : Type) (A : E → Type) (ε α W : Type) where
  world : W
  running : Option (Program E A ε α) := none

/-- What happens next. An effect that cannot be carried out has no answer. -/
inductive Event (ε C X T : Type) where
  | start (input : T)
  | interfere (change : X)
  | answered (choice : C)
  | failed (err : ε)
  /-- The effect is carried out, but its answer is lost. -/
  | lost (choice : C) (err : ε)
  | crash
  /-- The program has ended. -/
  | settle

variable (H)

def step (s : State E A ε α W) : Event ε C X T → State E A ε α W
  | .start input =>
    match s.running with
    | none => { world := H.enter s.world, running := some (H.program input) }
    | some _ => s
  | .interfere change => { s with world := H.interfere change s.world }
  | .answered choice =>
    match s.running with
    | some (.perform e k) =>
      match H.exec choice e s.world with
      | some (a, w) => { world := w, running := some (k (.ok a)) }
      | none => s
    | _ => s
  | .failed err =>
    match s.running with
    | some (.perform _ k) => { s with running := some (k (.error err)) }
    | _ => s
  | .lost choice err =>
    match s.running with
    | some (.perform e k) =>
      match H.exec choice e s.world with
      | some (_, w) => { world := w, running := some (k (.error err)) }
      | none => s
    | _ => s
  | .crash => { s with running := none }
  | .settle =>
    match s.running with
    | some (.ret a) => { world := H.leave a s.world, running := none }
    | some (.raise _) => { s with running := none }
    | _ => s

def machine (w : W) : Machine (State E A ε α W) (Event ε C X T) where
  init := { world := w }
  step := H.step

variable {H} {I : W → Prop} {Q : α → W → Prop}

/-- What is known of a state of the host. -/
def Kept (H : Host E A ε α W C X T) (I : W → Prop) (Q : α → W → Prop)
    (s : State E A ε α W) : Prop :=
  I s.world ∧ ∀ p ∈ s.running, H.Safe I Q p s.world

variable {w : W}

theorem kept_none : H.Kept I Q ⟨w, none⟩ ↔ I w :=
  ⟨fun h => h.1, fun hw => ⟨hw, fun p hp => absurd hp (by simp)⟩⟩

theorem kept_some {p : Program E A ε α} : H.Kept I Q ⟨w, some p⟩ ↔ H.Safe I Q p w :=
  ⟨fun h => h.2 p rfl, fun h => ⟨h.inv, fun _ hq => Option.some.inj hq ▸ h⟩⟩

/-- The effect a program waits for is carried out. -/
theorem Kept.exec {e : E} {k : Except ε (A e) → Program E A ε α}
    (h : H.Kept I Q ⟨w, some (.perform e k)⟩) {choice : C} {a : A e} {w' : W}
    (hexec : H.exec choice e w = some (a, w')) :
    H.Kept I Q ⟨w', some (k (.ok a))⟩ ∧ ∀ err, H.Kept I Q ⟨w', some (k (.error err))⟩ := by
  have hsafe := kept_some.mp h
  obtain ⟨hdone, hlost⟩ := (hsafe.2 w (Rely.refl w)).2 choice a w' hexec
  exact ⟨kept_some.mpr hdone, fun err => kept_some.mpr (hlost err)⟩

/-- **One step of the host.** -/
theorem Kept.step (hI : H.Stable I)
    (hprogram : ∀ input w, I w → H.Safe I Q (H.program input) (H.enter w))
    (hleave : ∀ a w, I w → Q a w → I (H.leave a w)) {s : State E A ε α W} (hs : H.Kept I Q s)
    (event : Event ε C X T) : H.Kept I Q (H.step s event) := by
  obtain ⟨world, running⟩ := s
  cases event with
  | start input =>
    cases running with
    | none => exact kept_some.mpr (hprogram input world hs.1)
    | some p => exact hs
  | interfere change =>
    exact ⟨hI change world hs.1, fun p hp => (hs.2 p hp).rely hI (Rely.one change world)⟩
  | answered choice =>
    match running, hs with
    | none, hs | some (.ret a), hs | some (.raise err), hs => exact hs
    | some (.perform e k), hs =>
      cases hexec : H.exec choice e world with
      | none => simpa [Host.step, hexec] using hs
      | some answer => simpa [Host.step, hexec] using (hs.exec hexec).1
  | failed err =>
    match running, hs with
    | none, hs | some (.ret a), hs | some (.raise err'), hs => exact hs
    | some (.perform e k), hs =>
      exact kept_some.mpr (((kept_some.mp hs).2 world (Rely.refl world)).1 err)
  | lost choice err =>
    match running, hs with
    | none, hs | some (.ret a), hs | some (.raise err'), hs => exact hs
    | some (.perform e k), hs =>
      cases hexec : H.exec choice e world with
      | none => simpa [Host.step, hexec] using hs
      | some answer => simpa [Host.step, hexec] using (hs.exec hexec).2 err
  | crash => exact kept_none.mpr hs.1
  | settle =>
    match running, hs with
    | none, hs | some (.perform e k), hs => exact hs
    | some (.raise err), hs => exact kept_none.mpr hs.1
    | some (.ret a), hs =>
      have hreturned := (kept_some.mp hs).2 world (Rely.refl world)
      exact kept_none.mpr (hleave a world hs.1 hreturned)

/-- **A host whose programs are safe keeps the invariant.** -/
theorem kept_of_reachable (hI : H.Stable I)
    (hprogram : ∀ input w, I w → H.Safe I Q (H.program input) (H.enter w))
    (hleave : ∀ a w, I w → Q a w → I (H.leave a w)) (hw : I w)
    {s : State E A ε α W} (hs : (H.machine w).Reachable s) : I s.world := by
  refine ((H.machine w).invariant (P := H.Kept I Q) (kept_none.mpr hw) ?_ hs).1
  exact fun s event hs => hs.step hI hprogram hleave event

end Host

end AgentReliability
