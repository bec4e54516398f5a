import Reconciliation.Json.Basic

/-!
Reading records from JSON.

A record is written as an object, whose unknown fields are ignored, or as an array of its
fields in declaration order. An array holds at least the first `least` fields; a strict reader
refuses items after the last field. In an object every field may be missing as far as its
reader allows.
-/
namespace Reconciliation.Json

/-- The fields of a record by name. -/
def record? (names : List String) (least : Nat) (strict : Bool) :
    Json → Option (String → Option Json)
  | obj fields => some fun k => fields.lookup k
  | arr items =>
    if least ≤ items.length ∧ (strict → items.length ≤ names.length) then
      some fun k => (names.zip items).lookup k
    else none
  | _ => none

/-- A missing field has a default, a null one has not. -/
def defaulted (d : α) (read : Json → Option α) : Option Json → Option α
  | none => some d
  | some j => read j

/-- Null is no value. -/
def nullable (read : Json → Option α) : Json → Option (Option α)
  | null => some none
  | j => (read j).map some

/-- A field without a value may be missing or null. -/
def optionalField (read : Json → Option α) : Option Json → Option (Option α) :=
  defaulted none (nullable read)

def readStrings? (j : Json) : Option (List String) := do
  (← j.asItems?).mapM asString?

def readStringMap? (j : Json) : Option (SortedMap String String) := do
  let entries ← (← j.asFields?).mapM fun e => e.2.asString?.map (e.1, ·)
  some (.ofList entries)

/-- The name of a case, alone or as the key of a null. -/
def caseName? : Json → Option String
  | str s => some s
  | obj [(k, null)] => some k
  | _ => none

end Reconciliation.Json
