import Reconciliation.Sorted.Map

/-!
JSON values.

Whole numbers and binary floats are different values, as `1` and `1.0` are. The fields of
an object built by `Json.object` ascend by key and the last value of a key counts.
-/
namespace Reconciliation

/-- A JSON value. -/
inductive Json where
  | null
  | bool (b : Bool)
  | int (n : Int)
  | float (x : Float)
  | str (s : String)
  | arr (items : List Json)
  | obj (fields : List (String × Json))
  deriving Inhabited

namespace Json

mutual

/-- Equality of values: floats compare as numbers, so both zeros are one value. -/
def same : Json → Json → Bool
  | null, null => true
  | bool a, bool b => a == b
  | int a, int b => a == b
  | float a, float b => a == b
  | str a, str b => a == b
  | arr a, arr b => sameItems a b
  | obj a, obj b => sameFields a b
  | _, _ => false

def sameItems : List Json → List Json → Bool
  | [], [] => true
  | a :: as, b :: bs => same a b && sameItems as bs
  | _, _ => false

def sameFields : List (String × Json) → List (String × Json) → Bool
  | [], [] => true
  | (k, a) :: as, (l, b) :: bs => k == l && same a b && sameFields as bs
  | _, _ => false

end

instance : BEq Json := ⟨same⟩

def object (fields : List (String × Json)) : Json :=
  obj (fields.foldl (fun l e => SortedMap.insertEntry e.1 e.2 l) [])

def nat (n : Nat) : Json := int n

def optional (f : α → Json) : Option α → Json
  | none => null
  | some a => f a

/-- The value of a field; other values than objects have no fields. -/
def get? : Json → String → Option Json
  | obj fields, k => fields.lookup k
  | _, _ => none

/-- A field that is there and not null. -/
def given? (j : Json) (k : String) : Option Json :=
  match j.get? k with
  | some null => none
  | r => r

def asBool? : Json → Option Bool
  | bool b => some b
  | _ => none

def asString? : Json → Option String
  | str s => some s
  | _ => none

def asItems? : Json → Option (List Json)
  | arr items => some items
  | _ => none

def asFields? : Json → Option (List (String × Json))
  | obj fields => some fields
  | _ => none

/-- A whole number from 0 up to `bound`. -/
def asNat? (bound : Nat) : Json → Option Nat
  | int (.ofNat n) => if n ≤ bound then some n else none
  | _ => none

def maxUInt64 : Nat := Nat.pow 2 64 - 1

def maxUInt32 : Nat := Nat.pow 2 32 - 1

def asUInt64? (j : Json) : Option UInt64 := (j.asNat? maxUInt64).map (·.toUInt64)

def asUInt32? (j : Json) : Option UInt32 := (j.asNat? maxUInt32).map (·.toUInt32)

/-- A whole number of 64 bits, signed or unsigned. -/
def isWord (n : Int) : Bool := -(Nat.pow 2 63 : Int) ≤ n && n < (Nat.pow 2 64 : Int)

/-- Any number as a float. -/
def asFloat? : Json → Option Float
  | int n => if isWord n then some (.ofInt n) else none
  | float x => some x
  | _ => none

end Json
end Reconciliation
