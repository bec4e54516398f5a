import Reconciliation.Dispatch.Dispatcher
import Reconciliation.Scheduler.Engine

/-!
Dispatches under way on a clock.

A dispatch goes on until a call about its primary takes time or the pass over its dependents
has to wait. A call that crashes ends it without a summary.
-/
namespace Reconciliation

/-- How the calls of dispatches are answered: those of the dependents, and those about the
primary, which may crash. -/
structure Handlers (I : Interface) (σ : Type) where
  nodes : Environment I σ
  issue : Nat → PrimaryCall → σ → Nat × σ
  answer : Nat → (c : PrimaryCall) → σ → Option c.Reply × σ

/-- A dispatch that waits for an answer about its primary or for a pass. -/
inductive DispatchProcess (I : Interface) where
  | awaiting (due : Nat) (c : PrimaryCall) (k : c.Reply → Dispatching I DispatchSummary)
  | passing (p : Pass I) (k : PassResult → Dispatching I DispatchSummary)

namespace DispatchProcess
variable {I : Interface} {σ : Type}

abbrev Outcome (I : Interface) := Standing (DispatchProcess I) (Option DispatchSummary)

def advance (h : Handlers I σ) (now : Nat) :
    Dispatching I DispatchSummary → σ → Outcome I × σ
  | .done summary, s => (.over (some summary), s)
  | .call (.primary c) k, s =>
    match h.issue now c s with
    | (0, s) =>
      match h.answer now c s with
      | (some r, s) => advance h now (k r) s
      | (none, s) => (.over none, s)
    | (delay, s) => (.going (.awaiting (now + delay) c k), s)
  | .call (.pass w mode primary ctx) k, s =>
    match (w.pass mode primary ctx).settle h.nodes now s with
    | (.over r, s) => advance h now (k r) s
    | (.going p, s) => (.going (.passing p k), s)

/-- Goes on with what is due. -/
def resume (h : Handlers I σ) (now : Nat) : DispatchProcess I → σ → Outcome I × σ
  | awaiting due c k, s =>
    if due ≤ now then
      match h.answer now c s with
      | (some r, s) => advance h now (k r) s
      | (none, s) => (.over none, s)
    else (.going (awaiting due c k), s)
  | passing p k, s =>
    match p.settle h.nodes now s with
    | (.over r, s) => advance h now (k r) s
    | (.going p, s) => (.going (passing p k), s)

def dues : DispatchProcess I → List Nat
  | awaiting due _ _ => [due]
  | passing p _ => p.dues

end DispatchProcess

/-- The host whose dispatches are those of a dispatcher. -/
def Dispatcher.host {I : Interface} {σ : Type} (d : Dispatcher I) (h : Handlers I σ) :
    Host (DispatchProcess I) σ where
  start := fun now request retry s =>
    DispatchProcess.advance h now (d.dispatch request retry) s
  resume := DispatchProcess.resume h
  dues := DispatchProcess.dues

end Reconciliation
