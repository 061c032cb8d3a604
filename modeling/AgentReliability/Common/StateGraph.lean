import Mathlib.Data.List.Basic
/-!
# Graphs of nodes over channels

A graph runs one node at a time. What a node returns is applied to the
channels by their reducers, the state is persisted under the thread, and the
edges say which node is next. A state can be written from outside as if a
node had returned it, and an input is applied to the channels a thread
already has. A run that needs more supersteps than its limit is ended.
-/

namespace AgentReliability

/-- The reducers of the channels, the entry point and the edges. -/
structure StateGraph (S U N : Type*) where
  reduce : S → U → S
  entry : N
  /-- The node after a node; there is none at the end. -/
  next : N → S → Option N

/-- What is persisted of a thread: its channels, and the node that is next. -/
structure GraphThread (S N : Type*) where
  values : S
  next : Option N := none
  deriving DecidableEq, Repr

/-- How a run of a graph ends. -/
inductive GraphEnd (ε : Type*) where
  | finished
  | raised (e : ε)
  /-- `GraphRecursionError`. -/
  | recursion
  deriving DecidableEq, Repr

namespace StateGraph

variable {S U N I ε β : Type*} (g : StateGraph S U N)

/-- A node has returned, or `update_state` writes in its name. -/
def write (node : N) (t : GraphThread S N) (update : U) : GraphThread S N :=
  let values := g.reduce t.values update
  { values, next := g.next node values }

/-- `invoke` with an input. -/
def input (t : GraphThread S N) (update : U) : GraphThread S N :=
  { values := g.reduce t.values update, next := some g.entry }

/-- Supersteps, up to a limit: what the nodes meet is given one after the
other, and what they leave behind is kept. -/
def drive (exec : N → S → I → List β × Except ε U) (meets : ℕ → I) :
    ℕ → ℕ → GraphThread S N → List β × GraphEnd ε × GraphThread S N
  | _, _, ⟨values, none⟩ => ([], .finished, ⟨values, none⟩)
  | 0, _, ⟨values, some node⟩ => ([], .recursion, ⟨values, some node⟩)
  | limit + 1, i, ⟨values, some node⟩ =>
    match exec node values (meets i) with
    | (left, .error e) => (left, .raised e, ⟨values, some node⟩)
    | (left, .ok update) =>
      let rest := drive exec meets limit (i + 1) (g.write node ⟨values, some node⟩ update)
      (left ++ rest.1, rest.2)

variable {g} {exec : N → S → I → List β × Except ε U} {meets : ℕ → I} {limit i : ℕ} {values : S}
  {node : N}

theorem drive_finished : g.drive exec meets limit i ⟨values, none⟩ =
    ([], .finished, ⟨values, none⟩) := by
  cases limit <;> rfl

theorem drive_recursion : g.drive exec meets 0 i ⟨values, some node⟩ =
    ([], .recursion, ⟨values, some node⟩) := rfl

theorem drive_error {left : List β} {e : ε} (h : exec node values (meets i) = (left, .error e)) :
    g.drive exec meets (limit + 1) i ⟨values, some node⟩ =
      (left, .raised e, ⟨values, some node⟩) := by
  rw [drive, h]

theorem drive_ok {left : List β} {update : U}
    (h : exec node values (meets i) = (left, .ok update)) :
    g.drive exec meets (limit + 1) i ⟨values, some node⟩ =
      (left ++ (g.drive exec meets limit (i + 1) (g.write node ⟨values, some node⟩ update)).1,
        (g.drive exec meets limit (i + 1) (g.write node ⟨values, some node⟩ update)).2) := by
  rw [drive, h]

end StateGraph

end AgentReliability
