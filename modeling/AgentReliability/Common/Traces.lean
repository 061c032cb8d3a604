import AgentReliability.Common.Program
/-!
# What a program has done

A run of a program is the list of the effects it has performed, each with
the answer it got, and how it ended. Which answers an effect can get is a
parameter: one that gets none ends the process. The inversion rules follow
the operations programs are built with, and a bound on the effects a program
may perform is one on its runs.
-/

namespace AgentReliability

namespace Program

variable {E : Type} {A : E → Type} {ε α β : Type}

/-- An effect that was performed, and its answer. -/
abbrev Done (A : E → Type) (ε : Type) := (effect : E) × Except ε (A effect)

/-- **A run of a program**, to its end. -/
inductive Run (Possible : (effect : E) → Except ε (A effect) → Prop) :
    Program E A ε α → List (Done A ε) → Except ε α → Prop
  | ret (a : α) : Run Possible (ret a) [] (.ok a)
  | raise (e : ε) : Run Possible (raise e) [] (.error e)
  | perform {effect : E} {k : Except ε (A effect) → Program E A ε α} {answer : Except ε (A effect)}
      {trace : List (Done A ε)} {out : Except ε α} (h : Possible effect answer)
      (hk : Run Possible (k answer) trace out) :
      Run Possible (perform effect k) (⟨effect, answer⟩ :: trace) out

variable {Possible : (effect : E) → Except ε (A effect) → Prop} {trace : List (Done A ε)}

namespace Run

theorem ret_inv {a : α} {out : Except ε α} (h : Run Possible (Program.ret a) trace out) :
    trace = [] ∧ out = .ok a := by
  cases h
  exact ⟨rfl, rfl⟩

theorem raise_inv {e : ε} {out : Except ε α} (h : Run Possible (Program.raise e) trace out) :
    trace = [] ∧ out = .error e := by
  cases h
  exact ⟨rfl, rfl⟩

theorem perform_inv {effect : E} {k : Except ε (A effect) → Program E A ε α} {out : Except ε α}
    (h : Run Possible (Program.perform effect k) trace out) :
    ∃ answer rest, trace = ⟨effect, answer⟩ :: rest ∧ Possible effect answer ∧
      Run Possible (k answer) rest out := by
  cases h with
  | perform h hk => exact ⟨_, _, rfl, h, hk⟩

theorem call_inv {e : E} {out : Except ε (A e)}
    (h : Run Possible (Program.call e) trace out) :
    trace = [⟨e, out⟩] ∧ Possible e out := by
  obtain ⟨answer, rest, rfl, hpossible, hrest⟩ := h.perform_inv
  cases answer with
  | ok a =>
    obtain ⟨rfl, rfl⟩ := hrest.ret_inv
    exact ⟨rfl, hpossible⟩
  | error e =>
    obtain ⟨rfl, rfl⟩ := hrest.raise_inv
    exact ⟨rfl, hpossible⟩

/-- A sequence ends in its first part, or goes through it. -/
theorem bind_inv {p : Program E A ε α} {f : α → Program E A ε β} {out : Except ε β}
    (h : Run Possible (p >>= f) trace out) :
    (∃ e, out = .error e ∧ Run Possible p trace (.error e)) ∨
      ∃ a before after, trace = before ++ after ∧ Run Possible p before (.ok a) ∧
        Run Possible (f a) after out := by
  induction p generalizing trace with
  | ret a => exact .inr ⟨a, [], trace, rfl, .ret a, h⟩
  | raise e =>
    have hraise : Run Possible (.raise e : Program E A ε β) trace out := h
    obtain ⟨rfl, rfl⟩ := hraise.raise_inv
    exact .inl ⟨e, rfl, .raise e⟩
  | perform effect k ih =>
    have hperform : Run Possible (.perform effect fun answer => (k answer).bind f) trace out := h
    obtain ⟨answer, rest, rfl, hpossible, hrest⟩ := hperform.perform_inv
    rcases ih answer hrest with ⟨e, rfl, hk⟩ | ⟨a, before, after, rfl, hk, hf⟩
    · exact .inl ⟨e, rfl, .perform hpossible hk⟩
    · exact .inr ⟨a, ⟨effect, answer⟩ :: before, after, rfl, .perform hpossible hk, hf⟩

/-- `try … except` ends in its body, or goes through the handler. -/
theorem tryExcept_inv {p : Program E A ε α} {handler : ε → Program E A ε α} {out : Except ε α}
    (h : Run Possible (p.tryExcept handler) trace out) :
    (∃ a, out = .ok a ∧ Run Possible p trace (.ok a)) ∨
      ∃ e before after, trace = before ++ after ∧ Run Possible p before (.error e) ∧
        Run Possible (handler e) after out := by
  induction p generalizing trace with
  | ret a =>
    obtain ⟨rfl, rfl⟩ := ret_inv h
    exact .inl ⟨a, rfl, .ret a⟩
  | raise e => exact .inr ⟨e, [], trace, rfl, .raise e, h⟩
  | perform effect k ih =>
    obtain ⟨answer, rest, rfl, hpossible, hrest⟩ := perform_inv h
    rcases ih answer hrest with ⟨a, rfl, hk⟩ | ⟨e, before, after, rfl, hk, hf⟩
    · exact .inl ⟨a, rfl, .perform hpossible hk⟩
    · exact .inr ⟨e, ⟨effect, answer⟩ :: before, after, rfl, .perform hpossible hk, hf⟩

/-- **`try … finally` goes through its block**, however the body ends. -/
theorem tryFinally_inv {p : Program E A ε α} {block : Program E A ε Unit} {out : Except ε α}
    (h : Run Possible (p.tryFinally block) trace out) :
    ∃ result ended before after, trace = before ++ after ∧ Run Possible p before result ∧
      Run Possible block after ended ∧ out = (ended.bind fun _ => result) := by
  induction p generalizing trace with
  | ret a =>
    rcases bind_inv (p := block) h with ⟨e, rfl, hblock⟩ | ⟨⟨⟩, before, after, rfl, hblock, hret⟩
    · exact ⟨.ok a, .error e, [], trace, rfl, .ret a, hblock, rfl⟩
    · obtain ⟨rfl, rfl⟩ := ret_inv hret
      exact ⟨.ok a, .ok (), [], before, by simp, .ret a, hblock, rfl⟩
  | raise e =>
    rcases bind_inv (p := block) h with ⟨e', rfl, hblock⟩ | ⟨⟨⟩, before, after, rfl, hblock, hret⟩
    · exact ⟨.error e, .error e', [], trace, rfl, .raise e, hblock, rfl⟩
    · obtain ⟨rfl, rfl⟩ := raise_inv hret
      exact ⟨.error e, .ok (), [], before, by simp, .raise e, hblock, rfl⟩
  | perform effect k ih =>
    obtain ⟨answer, rest, rfl, hpossible, hrest⟩ := perform_inv h
    obtain ⟨result, ended, before, after, rfl, hk, hblock, hout⟩ := ih answer hrest
    exact ⟨result, ended, ⟨effect, answer⟩ :: before, after, rfl, .perform hpossible hk, hblock, hout⟩

end Run

/-- The run in which an effect is answered in the same way whenever it is
performed. -/
def runWith (answer : (effect : E) → Except ε (A effect)) :
    Program E A ε α → List (Done A ε) × Except ε α
  | ret a => ([], .ok a)
  | raise e => ([], .error e)
  | perform effect k =>
    (⟨effect, answer effect⟩ :: ((k (answer effect)).runWith answer).1,
      ((k (answer effect)).runWith answer).2)

theorem run_runWith {answer : (effect : E) → Except ε (A effect)} (p : Program E A ε α)
    (h : ∀ done ∈ (p.runWith answer).1, Possible done.1 done.2) :
    Run Possible p (p.runWith answer).1 (p.runWith answer).2 := by
  induction p with
  | ret a => exact .ret a
  | raise e => exact .raise e
  | perform effect k ih =>
    refine .perform (h _ List.mem_cons_self) (ih (answer effect) fun done hdone => ?_)
    exact h done (List.mem_cons_of_mem _ hdone)

/-! ## The effects a program may perform -/

/-- Every effect the program may perform meets `P`. -/
def Uses (P : E → Prop) : Program E A ε α → Prop
  | ret _ => True
  | raise _ => True
  | perform effect k => P effect ∧ ∀ answer, Uses P (k answer)

section

variable {P : E → Prop} {p : Program E A ε α}

@[simp] theorem uses_ret (a : α) : (ret a : Program E A ε α).Uses P := trivial

@[simp] theorem uses_pure (a : α) : (pure a : Program E A ε α).Uses P := trivial

@[simp] theorem uses_raise (e : ε) : (raise e : Program E A ε α).Uses P := trivial

theorem uses_call {effect : E} (h : P effect) : (call effect : Program E A ε _).Uses P :=
  ⟨h, fun answer => by cases answer <;> trivial⟩

theorem uses_bind {f : α → Program E A ε β} (hp : p.Uses P) (hf : ∀ a, (f a).Uses P) :
    (p >>= f).Uses P := by
  induction p with
  | ret a => exact hf a
  | raise e => trivial
  | perform effect k ih => exact ⟨hp.1, fun answer => ih answer (hp.2 answer)⟩

theorem uses_tryExcept {handler : ε → Program E A ε α} (hp : p.Uses P)
    (hh : ∀ e, (handler e).Uses P) : (p.tryExcept handler).Uses P := by
  induction p with
  | ret a => trivial
  | raise e => exact hh e
  | perform effect k ih => exact ⟨hp.1, fun answer => ih answer (hp.2 answer)⟩

theorem uses_tryFinally {block : Program E A ε Unit} (hp : p.Uses P) (hblock : block.Uses P) :
    (p.tryFinally block).Uses P := by
  induction p with
  | ret a => exact uses_bind (p := block) hblock fun _ => trivial
  | raise e => exact uses_bind (p := block) hblock fun _ => trivial
  | perform effect k ih => exact ⟨hp.1, fun answer => ih answer (hp.2 answer)⟩

theorem uses_onlyIf {c : Prop} [Decidable c] {body : Program E A ε Unit} (h : c → body.Uses P) :
    (onlyIf c body).Uses P := by
  unfold onlyIf
  split
  · rename_i hc
    exact h hc
  · trivial

/-- **What a program may perform bounds what it has done.** -/
theorem Run.of_uses {out : Except ε α} (hrun : Run Possible p trace out) (h : p.Uses P) :
    ∀ done ∈ trace, P done.1 := by
  induction hrun with
  | ret => simp
  | raise => simp
  | perform _ _ ih =>
    intro done hdone
    rcases List.mem_cons.mp hdone with rfl | hdone
    · exact h.1
    · exact ih (h.2 _) done hdone

end

end Program

end AgentReliability
