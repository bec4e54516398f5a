/-!
Work as data: sequences of calls on an environment.

A task says what it asks of its environment and how it goes on with each answer; it performs
nothing by itself. Who answers a call, when, and from which state, is up to the interpreter,
so one task has runs that are interrupted by delays and runs that are not.
-/
namespace Reconciliation

/-- The calls that an environment offers and the type of the answer to each. -/
structure Interface where
  Call : Type
  Reply : Call → Type

/-- One call after another. -/
inductive Action (I : Interface) (α : Type) where
  | done (a : α)
  | call (c : I.Call) (k : I.Reply c → Action I α)

namespace Action
variable {I : Interface} {α β : Type}

protected def bind : Action I α → (α → Action I β) → Action I β
  | done a, f => f a
  | call c k, f => call c fun r => (k r).bind f

instance : Monad (Action I) where
  pure := done
  bind := Action.bind

/-- A single call. -/
def ask (c : I.Call) : Action I (I.Reply c) := call c done

/-- The value after calls that are all answered at once by a stateful environment. -/
def run (answer : (c : I.Call) → σ → I.Reply c × σ) : Action I α → σ → α × σ
  | done a, s => (a, s)
  | call c k, s => (k (answer c s).1).run answer (answer c s).2

/-- Goes on with the next step unless the one before failed. -/
def andThen (t : Action I (Except ε α)) (f : α → Action I (Except ε β)) : Action I (Except ε β) :=
  t.bind fun
    | .ok a => f a
    | .error e => done (.error e)

end Action

/-- Calls one after another, and between them groups of actions that run side by side. A group
is over when each of its members is; the results are in the order of the members. -/
inductive Task (I : Interface) (ε α : Type) where
  | done (a : α)
  | call (c : I.Call) (k : I.Reply c → Task I ε α)
  | group (members : List (Action I (Except ε Unit))) (k : List (Except ε Unit) → Task I ε α)

namespace Task
variable {I : Interface} {ε α β : Type}

protected def bind : Task I ε α → (α → Task I ε β) → Task I ε β
  | done a, f => f a
  | call c k, f => call c fun r => (k r).bind f
  | group ms k, f => group ms fun rs => (k rs).bind f

instance : Monad (Task I ε) where
  pure := done
  bind := Task.bind

def ofAction : Action I α → Task I ε α
  | .done a => done a
  | .call c k => call c fun r => ofAction (k r)

/-- Goes on with the next step unless the one before failed. -/
def andThen (t : Task I ε (Except ε α)) (f : α → Task I ε (Except ε β)) :
    Task I ε (Except ε β) :=
  t.bind fun
    | .ok a => f a
    | .error e => done (.error e)

/-- Actions run in order, the next one in the state that the one before left. -/
def runGroup (answer : (c : I.Call) → σ → I.Reply c × σ) :
    List (Action I α) → σ → List α × σ
  | [], s => ([], s)
  | m :: rest, s =>
    let (a, s) := m.run answer s
    let (as, s) := runGroup answer rest s
    (a :: as, s)

/-- The value after calls that are all answered at once by a stateful environment. -/
def run (answer : (c : I.Call) → σ → I.Reply c × σ) : Task I ε α → σ → α × σ
  | done a, s => (a, s)
  | call c k, s => (k (answer c s).1).run answer (answer c s).2
  | group ms k, s => (k (runGroup answer ms s).1).run answer (runGroup answer ms s).2

end Task
end Reconciliation
