import Reconciliation.Resource.Id

/-!
The failures of the engine and their wording.

A version conflict is told apart from other failures because it is retried at once. A bundle
of failures of dependents counts as a conflict when each of its members does.
-/
namespace Reconciliation

/-- A failure of the engine, or of what it works with. -/
inductive Error where
  | conflict (id : ResourceId) (expected actual : Version)
  | notFound (id : ResourceId)
  | alreadyExists (id : ResourceId)
  | adapter (dependent reason : String)
  | conditionEvaluation (dependent reason : String)
  | dependents (failures : List (String × Error))
  | reconciler (reason : String)
  | dispatchPanicked (id : ResourceId)
  | cyclicGraph (nodes : List String)
  | duplicateNode (name : String)
  | unknownDependency (node dependency : String)
  | invalidConfig (reason : String)
  | configParse (reason : String)
  | fileReadFailed (path reason : String)
  | shuttingDown
  deriving Inhabited

namespace Error

mutual

def message : Error → String
  | conflict id expected actual =>
    "version conflict on " ++ id.text ++ ": expected " ++ expected.text ++ ", found " ++ actual.text
  | notFound id => "object not found: " ++ id.text
  | alreadyExists id => "object already exists: " ++ id.text
  | adapter dependent reason => "dependent '" ++ dependent ++ "' failed: " ++ reason
  | conditionEvaluation dependent reason =>
    "condition on '" ++ dependent ++ "' could not be evaluated: " ++ reason
  | dependents failures =>
    toString failures.length ++ " dependent resource(s) failed: "
      ++ "; ".intercalate (memberMessages failures)
  | reconciler reason => "reconciler failed: " ++ reason
  | dispatchPanicked id => "dispatch for " ++ id.text ++ " panicked"
  | cyclicGraph nodes => "dependency cycle detected between: " ++ " -> ".intercalate nodes
  | duplicateNode name => "dependent '" ++ name ++ "' declared more than once"
  | unknownDependency node dependency =>
    "dependent '" ++ node ++ "' depends on unknown dependent '" ++ dependency ++ "'"
  | invalidConfig reason => "invalid configuration: " ++ reason
  | configParse reason => "TOML parse error: " ++ reason
  | fileReadFailed path reason => "failed to read file '" ++ path ++ "': " ++ reason
  | shuttingDown => "engine is shutting down"

def memberMessages : List (String × Error) → List String
  | [] => []
  | (dependent, e) :: rest => (dependent ++ ": " ++ e.message) :: memberMessages rest

end

mutual

/-- A version conflict, or a bundle of at least one failure that holds conflicts only. -/
def isConflict : Error → Bool
  | conflict .. => true
  | dependents failures => !failures.isEmpty && allConflicts failures
  | _ => false

def allConflicts : List (String × Error) → Bool
  | [] => true
  | (_, e) :: rest => e.isConflict && allConflicts rest

end

/-- Repeating the work cannot help. -/
def isTerminal : Error → Bool
  | cyclicGraph _ | duplicateNode _ | unknownDependency .. | invalidConfig _ | configParse _
  | dispatchPanicked _ => true
  | _ => false

def isNotFound : Error → Bool
  | notFound _ => true
  | _ => false

end Error

/-- A missing object is an expected outcome: no value instead of a failure. -/
def ignoreNotFound : Except Error α → Except Error (Option α)
  | .ok a => .ok (some a)
  | .error e => if e.isNotFound then .ok none else .error e

end Reconciliation
