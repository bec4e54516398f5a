import Reconciliation.Dependent.Basic
import Reconciliation.Error
import Reconciliation.Task.Basic

/-!
The difference between the actual and the desired members of a bulk dependent, and what is done
about it.

Each key of either map falls into exactly one of four classes, and each class lists its keys in
ascending order. All members are worked on side by side whatever becomes of the others. One
failure is the failure of the dependent; several are bundled, each under the name of the
dependent and its key.
-/
namespace Reconciliation

/-- What to do with each member of a bulk dependent, by key. -/
structure BulkPlan (R : Type) where
  create : List (String × R)
  update : List (String × R × R)
  delete : List (String × R)
  unchanged : List String

/-- The writes on the members of a bulk dependent. -/
structure BulkWrites (I : Interface) (R : Type) where
  create : String → R → Action I (Except Error Unit)
  update : String → R → R → Action I (Except Error Unit)
  delete : String → R → Action I (Except Error Unit)

namespace BulkPlan
variable {I : Interface} {R : Type}

def isNoop (p : BulkPlan R) : Bool := p.create.isEmpty && p.update.isEmpty && p.delete.isEmpty

/-- Members that are actual only are deleted, desired only created; of the common ones those
that do not match are updated. -/
def between (agrees : R → R → Bool) (actual desired : SortedMap String R) : BulkPlan R where
  create := desired.entries.filter fun e => !actual.contains e.1
  update := actual.entries.filterMap fun e =>
    match desired.get? e.1 with
    | some wanted => if agrees e.2 wanted then none else some (e.1, e.2, wanted)
    | none => none
  delete := actual.entries.filter fun e => !desired.contains e.1
  unchanged := actual.entries.filterMap fun e =>
    match desired.get? e.1 with
    | some wanted => if agrees e.2 wanted then some e.1 else none
    | none => none

/-- The plan that deletes all members. -/
def deletion (observed : SortedMap String R) : BulkPlan R where
  create := []
  update := []
  delete := observed.entries
  unchanged := []

def operations (p : BulkPlan R) : Operations where
  created := p.create.length
  updated := p.update.length
  deleted := p.delete.length
  unchanged := p.unchanged.length

/-- The keys of the members in the order of their work: deletes, creates, updates. -/
def keys (p : BulkPlan R) : List String :=
  p.delete.map (·.1) ++ p.create.map (·.1) ++ p.update.map (·.1)

def members (w : BulkWrites I R) (p : BulkPlan R) : List (Action I (Except Error Unit)) :=
  p.delete.map (fun e => w.delete e.1 e.2) ++ p.create.map (fun e => w.create e.1 e.2)
    ++ p.update.map (fun e => w.update e.1 e.2.1 e.2.2)

/-- The failed members under their labels. -/
def failures (name : String) (keys : List String) (results : List (Except Error Unit)) :
    List (String × Error) :=
  (keys.zip results).filterMap fun
    | (key, .error e) => some (name ++ "[" ++ key ++ "]", e)
    | (_, .ok _) => none

def conclude (name : String) (p : BulkPlan R) (results : List (Except Error Unit)) :
    Except Error Operations :=
  match failures name p.keys results with
  | [] => .ok p.operations
  | [(_, e)] => .error e
  | several => .error (.dependents several)

def apply (name : String) (w : BulkWrites I R) (p : BulkPlan R) :
    Task I Error (Except Error Operations) :=
  .group (p.members w) fun results => .done (p.conclude name results)

end BulkPlan
end Reconciliation
