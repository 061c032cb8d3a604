import Mathlib.Tactic.Common
/-!
# Programs with effects and exceptions

A program performs effects one at a time and goes on with the answer, which
may be an exception. `try … except` and `try … finally` are defined by
recursion on the program, as the language says: a handler sees an exception
of the body wherever the body raised it, and a `finally` block runs on every
way out, its own exception hiding the body's.
-/

namespace AgentReliability

/-- **A program**: it returns, raises, or performs an effect and goes on with
the answer. -/
inductive Program (E : Type) (A : E → Type) (ε α : Type) where
  | ret (a : α)
  | raise (e : ε)
  | perform (effect : E) (k : Except ε (A effect) → Program E A ε α)

namespace Program

variable {E : Type} {A : E → Type} {ε α β : Type}

def bind : Program E A ε α → (α → Program E A ε β) → Program E A ε β
  | ret a, f => f a
  | raise e, _ => raise e
  | perform effect k, f => perform effect fun answer => (k answer).bind f

instance : Monad (Program E A ε) where
  pure := ret
  bind := bind

instance : LawfulMonad (Program E A ε) := LawfulMonad.mk' _
  (fun p => by
    induction p with
    | ret a => rfl
    | raise e => rfl
    | perform effect k ih => exact congrArg (perform effect) (funext ih))
  (fun _ _ => rfl)
  (fun p f g => by
    induction p with
    | ret a => rfl
    | raise e => rfl
    | perform effect k ih => exact congrArg (perform effect) (funext ih))

/-- Performs one effect. -/
def call (effect : E) : Program E A ε (A effect) :=
  perform effect fun
    | .ok a => ret a
    | .error e => raise e

/-- A step that performs no effect. -/
def ofExcept : Except ε α → Program E A ε α
  | .ok a => ret a
  | .error e => raise e

/-- `try: body / except: handler`. The handler is given every exception, and
raises again the ones it does not handle. -/
def tryExcept : Program E A ε α → (ε → Program E A ε α) → Program E A ε α
  | ret a, _ => ret a
  | raise e, handler => handler e
  | perform effect k, handler => perform effect fun answer => (k answer).tryExcept handler

/-- `try: body / finally: block`. -/
def tryFinally : Program E A ε α → Program E A ε Unit → Program E A ε α
  | ret a, block => block.bind fun _ => ret a
  | raise e, block => block.bind fun _ => raise e
  | perform effect k, block => perform effect fun answer => (k answer).tryFinally block

/-- `if c: body`, without an `else`. -/
def onlyIf (c : Prop) [Decidable c] (body : Program E A ε Unit) : Program E A ε Unit :=
  if c then body else ret ()

/-- The effect a program waits on. -/
def effect? : Program E A ε α → Option E
  | perform effect _ => some effect
  | _ => none

/-- How a program has ended. -/
def outcome? : Program E A ε α → Option (Except ε α)
  | ret a => some (.ok a)
  | raise e => some (.error e)
  | perform _ _ => none

@[simp] theorem effect?_ret (a : α) : (ret a : Program E A ε α).effect? = none := rfl

@[simp] theorem effect?_raise (e : ε) : (raise e : Program E A ε α).effect? = none := rfl

@[simp] theorem effect?_perform (effect : E) (k : Except ε (A effect) → Program E A ε α) :
    (perform effect k).effect? = some effect := rfl

@[simp] theorem outcome?_ret (a : α) : (ret a : Program E A ε α).outcome? = some (.ok a) := rfl

@[simp] theorem outcome?_raise (e : ε) :
    (raise e : Program E A ε α).outcome? = some (.error e) := rfl

@[simp] theorem outcome?_perform (effect : E) (k : Except ε (A effect) → Program E A ε α) :
    (perform effect k).outcome? = none := rfl

end Program

end AgentReliability
