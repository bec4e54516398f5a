import Reconciliation.Sorted.Map

/-!
Dependents: what the engine may do with them, what it sees of them, what it did to them.
-/
namespace Reconciliation

/-- Whether a dependent is only watched or also written. -/
inductive Access where
  | readOnly
  | mutating
  deriving DecidableEq

/-- Whether a dependent has one resource at most or members by key. -/
inductive Cardinality where
  | singleton
  | bulk
  deriving DecidableEq

/-- What the engine can do with a dependent. -/
structure Capability where
  access : Access
  cardinality : Cardinality
  deriving DecidableEq

namespace Capability

def isMutating (c : Capability) : Bool := c.access = .mutating

def isBulk (c : Capability) : Bool := c.cardinality = .bulk

def text (c : Capability) : String :=
  (match c.access with
    | .readOnly => "read-only "
    | .mutating => "mutating ")
  ++ match c.cardinality with
    | .singleton => "singleton"
    | .bulk => "bulk"

end Capability

/-- The actual state of a dependent: one resource or none, or its members by key. -/
inductive Observed (R : Type) where
  | single (value : Option R)
  | bulk (members : SortedMap String R)

namespace Observed
variable {R : Type}

def isPresent : Observed R → Bool
  | single value => value.isSome
  | bulk members => !members.isEmpty

def single? : Observed R → Option R
  | single value => value
  | bulk _ => none

def members? : Observed R → Option (SortedMap String R)
  | single _ => none
  | bulk members => some members

def size : Observed R → Nat
  | single value => if value.isSome then 1 else 0
  | bulk members => members.size

end Observed

/-- Counts of the writes of a pass. -/
structure Operations where
  created : Nat := 0
  updated : Nat := 0
  deleted : Nat := 0
  unchanged : Nat := 0
  deriving DecidableEq, Inhabited

namespace Operations

/-- Counts are machine words and stay at the greatest one. -/
def saturatingAdd (a b : Nat) : Nat := min (a + b) (Nat.pow 2 64 - 1)

def add (a b : Operations) : Operations where
  created := saturatingAdd a.created b.created
  updated := saturatingAdd a.updated b.updated
  deleted := saturatingAdd a.deleted b.deleted
  unchanged := saturatingAdd a.unchanged b.unchanged

instance : Add Operations := ⟨add⟩

def changedAnything (o : Operations) : Bool := 0 < o.created || 0 < o.updated || 0 < o.deleted

end Operations
end Reconciliation
