import Reconciliation.Task.Basic

/-!
Tasks on a clock.

The environment says of each call how many milliseconds its answer takes and works the answer
out when they have passed. A task goes on until it has to wait; an answer that takes no time
does not interrupt it.
-/
namespace Reconciliation

/-- An environment of calls at times, with a state that the calls change. -/
structure Environment (I : Interface) (σ : Type) where
  issue : Nat → I.Call → σ → Nat × σ
  answer : Nat → (c : I.Call) → σ → I.Reply c × σ

/-- An environment that answers all calls at once. -/
def Environment.prompt {I : Interface} (answer : (c : I.Call) → σ → I.Reply c × σ) :
    Environment I σ where
  issue := fun _ _ s => (0, s)
  answer := fun _ => answer

/-- What goes on, or its result. -/
inductive Standing (π α : Type) where
  | going (process : π)
  | over (result : α)

namespace Action
variable {I : Interface} {α σ : Type}

/-- How far an action has come. -/
inductive Progress (I : Interface) (α : Type) where
  | finished (a : α)
  | awaiting (due : Nat) (c : I.Call) (k : I.Reply c → Action I α)

def advance (env : Environment I σ) (now : Nat) : Action I α → σ → Progress I α × σ
  | done a, s => (.finished a, s)
  | call c k, s =>
    match env.issue now c s with
    | (0, s) =>
      match env.answer now c s with
      | (r, s) => (k r).advance env now s
    | (delay, s) => (.awaiting (now + delay) c k, s)

namespace Progress

/-- Goes on with an action whose answer is due. -/
def resume (env : Environment I σ) (now : Nat) : Progress I α → σ → Progress I α × σ
  | finished a, s => (finished a, s)
  | awaiting due c k, s =>
    if due ≤ now then
      match env.answer now c s with
      | (r, s) => (k r).advance env now s
    else (awaiting due c k, s)

def value? : Progress I α → Option α
  | finished a => some a
  | awaiting .. => none

/-- The times at which the action is to be resumed. -/
def dues : Progress I α → List Nat
  | finished _ => []
  | awaiting due _ _ => [due]

/-- Applies a step to each member in turn. -/
def each (step : π → σ → Progress I α × σ) : List π → σ → List (Progress I α) × σ
  | [], s => ([], s)
  | p :: rest, s =>
    match step p s with
    | (q, s) =>
      match each step rest s with
      | (qs, s) => (q :: qs, s)

end Progress
end Action

namespace Task
variable {I : Interface} {ε α σ : Type}

/-- How far a task has come. A group waits for its slowest member. -/
inductive Progress (I : Interface) (ε α : Type) where
  | finished (a : α)
  | awaiting (due : Nat) (c : I.Call) (k : I.Reply c → Task I ε α)
  | joining (members : List (Action.Progress I (Except ε Unit)))
    (k : List (Except ε Unit) → Task I ε α)

def advance (env : Environment I σ) (now : Nat) : Task I ε α → σ → Progress I ε α × σ
  | done a, s => (.finished a, s)
  | call c k, s =>
    match env.issue now c s with
    | (0, s) =>
      match env.answer now c s with
      | (r, s) => (k r).advance env now s
    | (delay, s) => (.awaiting (now + delay) c k, s)
  | group ms k, s =>
    match Action.Progress.each (fun m s => m.advance env now s) ms s with
    | (ps, s) =>
      match ps.mapM Action.Progress.value? with
      | some rs => (k rs).advance env now s
      | none => (.joining ps k, s)

namespace Progress

/-- Goes on with what is due. -/
def resume (env : Environment I σ) (now : Nat) : Progress I ε α → σ → Progress I ε α × σ
  | finished a, s => (finished a, s)
  | awaiting due c k, s =>
    if due ≤ now then
      match env.answer now c s with
      | (r, s) => (k r).advance env now s
    else (awaiting due c k, s)
  | joining ps k, s =>
    match Action.Progress.each (fun p s => p.resume env now s) ps s with
    | (ps, s) =>
      match ps.mapM Action.Progress.value? with
      | some rs => (k rs).advance env now s
      | none => (joining ps k, s)

def value? : Progress I ε α → Option α
  | finished a => some a
  | _ => none

def dues : Progress I ε α → List Nat
  | finished _ => []
  | awaiting due _ _ => [due]
  | joining ps _ => ps.flatMap Action.Progress.dues

end Progress
end Task
end Reconciliation
