import Reconciliation.Cluster.Client
import Reconciliation.Scenario.Shapes
import Reconciliation.Task.Clocked

/-!
The world of a scenario: a cluster, scripted dependents with what they hold, and a journal of
what is asked of them.

An act is a journalled call on a scripted dependent. It may take time, and then its end is
journalled too, and it may fail: each of its faults counts how often it is looked at and
strikes on a range of these looks. The first fault that strikes is the failure.
-/
namespace Reconciliation.Scenario

/-- What a scripted dependent has and what it is meant to have. -/
inductive Holding where
  | single (stored : Option Json) (desired : Json)
  | bulk (stored desired : SortedMap String Json)

/-- A failure on the looks from a number on, for so many of them or for ever. -/
structure Fault where
  label : String
  error : Error
  start : Nat := 0
  times : Option Nat := none

def Fault.strikes (f : Fault) (look : Nat) : Bool :=
  f.start ≤ look && f.times.all fun n => look < f.start + n

/-- A journalled call on a scripted dependent. -/
structure Act where
  /-- A line that is journalled ahead of the act's own. -/
  preamble : Option String := none
  line : String
  doneLine : String
  delay : Option Nat := none
  faults : List Fault := []

/-- What scripted dependents ask of their world. -/
inductive FixtureCall where
  | cluster (c : ClusterCall)
  | act (a : Act)
  | note (line : String)
  | look (node : String)
  | keep (node : String) (h : Holding)
  /-- How often this was asked under a label before. -/
  | count (label : String)

def FixtureCall.Reply : FixtureCall → Type
  | cluster c => c.Reply
  | act _ => Except Error Unit
  | note _ => Unit
  | look _ => Holding
  | keep .. => Unit
  | count _ => Nat

def fixtures : Interface := ⟨FixtureCall, FixtureCall.Reply⟩

/-- The state of a scenario outside the engine. -/
structure World where
  cluster : Cluster := {}
  holdings : SortedMap String Holding := {}
  counts : SortedMap String Nat := {}
  /-- The journal, the newest line first. -/
  journal : List String := []

namespace World

def log (now : Nat) (w : World) (line : String) : World :=
  { w with journal := (toString now ++ " " ++ line) :: w.journal }

def logAll (now : Nat) (w : World) (lines : List String) : World := lines.foldl (log now) w

def countOf (w : World) (label : String) : Nat × World :=
  let n := (w.counts.get? label).getD 0
  (n, { w with counts := w.counts.insert label (n + 1) })

/-- Looks at faults in order up to the first one that strikes. -/
def strike (w : World) : List Fault → Except Error Unit × World
  | [] => (.ok (), w)
  | f :: rest =>
    match w.countOf f.label with
    | (n, w) => if f.strikes n then (.error f.error, w) else strike w rest

def issue (now : Nat) (c : FixtureCall) (w : World) : Nat × World :=
  match c with
  | .act a => (a.delay.getD 0, w.logAll now (a.preamble.toList ++ [a.line]))
  | _ => (0, w)

def answer (now : Nat) (c : FixtureCall) (w : World) : c.Reply × World :=
  match c with
  | .cluster c =>
    match c.answer now w.cluster with
    | (r, cluster) => (r, { w with cluster })
  | .act a => (if a.delay.isSome then w.log now a.doneLine else w).strike a.faults
  | .note line => ((), w.log now line)
  | .look node => ((w.holdings.get? node).getD (.single none .null), w)
  | .keep node h => ((), { w with holdings := w.holdings.insert node h })
  | .count label => w.countOf label

def environment : Environment fixtures World := ⟨issue, answer⟩

end World

/-- Access to the cluster of the world. -/
def client : Client fixtures where
  get := fun id => Action.ask (I := fixtures) (.cluster (.get id))
  create := fun o => Action.ask (I := fixtures) (.cluster (.create o))
  patch := fun id expected p => Action.ask (I := fixtures) (.cluster (.patch id expected p))
  delete := fun id => Action.ask (I := fixtures) (.cluster (.delete id))
  ownedBy := fun owner kind => Action.ask (I := fixtures) (.cluster (.ownedBy owner kind))

def perform (a : Act) : Action fixtures (Except Error Unit) := Action.ask (I := fixtures) (.act a)

def note (line : String) : Action fixtures Unit := Action.ask (I := fixtures) (.note line)

def look (node : String) : Action fixtures Holding := Action.ask (I := fixtures) (.look node)

def keep (node : String) (h : Holding) : Action fixtures Unit :=
  Action.ask (I := fixtures) (.keep node h)

def count (label : String) : Action fixtures Nat := Action.ask (I := fixtures) (.count label)

end Reconciliation.Scenario
