import Reconciliation.Json.Basic

/-!
TOML values and the rules by which keys and headers fill tables.

A table remembers how it came into being, because that decides who may add to it: a header
may take over a table that so far is only implied by longer headers, dotted keys may only add
to tables that dotted keys made, and an inline table is closed. Nothing is defined twice.
-/
namespace Reconciliation.Toml

/-- How a table came into being. -/
inductive Origin where
  /-- Stated by its own header, or the document itself. -/
  | header
  /-- Only on the way to the table of a longer header. -/
  | implied
  /-- Made by dotted keys. -/
  | dotted
  /-- Written in braces. -/
  | inline
  deriving DecidableEq, Inhabited

/-- An array of tables grows by headers and is marked as such. -/
inductive Value where
  | str (s : String)
  | int (n : Int)
  | float (x : Float)
  | bool (b : Bool)
  | datetime (text : String)
  | array (ofTables : Bool) (items : List Value)
  | table (origin : Origin) (entries : List (String × Value))
  deriving Inhabited

mutual

/-- Date-times become an object with one field. -/
def Value.toJson : Value → Json
  | .str s => .str s
  | .int n => .int n
  | .float x => .float x
  | .bool b => .bool b
  | .datetime text => .obj [("$__toml_private_datetime", .str text)]
  | .array _ items => .arr (jsonItems items)
  | .table _ entries => .object (jsonFields entries)

def jsonItems : List Value → List Json
  | [] => []
  | v :: rest => v.toJson :: jsonItems rest

def jsonFields : List (String × Value) → List (String × Json)
  | [] => []
  | (k, v) :: rest => (k, v.toJson) :: jsonFields rest

end

/-- A table under construction. -/
structure Table where
  origin : Origin
  entries : List (String × Value)
  deriving Inhabited

namespace Table

def toValue (t : Table) : Value := .table t.origin t.entries

def toJson (t : Table) : Json := t.toValue.toJson

/-- Stores a value under a key, in place of an earlier one. -/
def set (t : Table) (k : String) (v : Value) : Table :=
  if (t.entries.lookup k).isSome then
    { t with entries := t.entries.map fun e => if e.1 = k then (k, v) else e }
  else { t with entries := t.entries ++ [(k, v)] }

def erase (t : Table) (k : String) : Table :=
  { t with entries := t.entries.filter fun e => e.1 ≠ k }

/-- Dotted keys may enter a table that no header has stated. -/
def mayEnter (dotted : Bool) : Origin → Bool
  | .header => !dotted
  | .implied | .dotted => true
  | .inline => false

/-- Changes the table at the end of a path and makes the tables missing on the way. -/
def within (dotted : Bool) (f : Table → Option Table) : List String → Table → Option Table
  | [], t => f t
  | k :: path, t =>
    match t.entries.lookup k with
    | none => do
      let sub ← within dotted f path ⟨if dotted then .dotted else .implied, []⟩
      some (t.set k sub.toValue)
    | some (.table origin entries) => do
      if mayEnter dotted origin then
        let sub ← within dotted f path ⟨origin, entries⟩
        some (t.set k sub.toValue)
      else none
    | some (.array true items) =>
      match items.getLast? with
      | some (.table origin entries) => do
        let sub ← within dotted f path ⟨origin, entries⟩
        some (t.set k (.array true (items.dropLast ++ [sub.toValue])))
      | _ => none
    | some _ => none

/-- Defines a key; the keys before the last one are the path to its table. -/
def define (t : Table) (path : List String) (k : String) (v : Value) : Option Table :=
  within (!path.isEmpty) (fun sub =>
    if (sub.origin == .dotted) == path.isEmpty || (sub.entries.lookup k).isSome then none
    else some (sub.set k v)) path t

/-- Appends a table to an array of tables. -/
def append (t : Table) (path : List String) (k : String) (item : Table) : Option Table :=
  within false (fun sub =>
    match sub.entries.lookup k with
    | none => some (sub.set k (.array true [item.toValue]))
    | some (.array true items) => some (sub.set k (.array true (items ++ [item.toValue])))
    | some _ => none) path t

/-- Stores the finished table of a header. -/
def adopt (t : Table) (path : List String) (k : String) (item : Table) : Option Table :=
  within false (fun sub =>
    if (sub.entries.lookup k).isSome then none else some (sub.set k item.toValue)) path t

/-- Takes out the table that a header is about to state; `none` where it is stated already. -/
def takeOver (t : Table) (path : List String) (k : String) : Option (Table × Table) := do
  let found ← find path t
  match found with
  | none => some (t, ⟨.header, []⟩)
  | some (.table .implied entries) => do
    let rest ← within false (fun sub => some (sub.erase k)) path t
    some (rest, ⟨.header, entries⟩)
  | some _ => none
where
  /-- The value under the key at the end of a path that a header may follow. -/
  find : List String → Table → Option (Option Value)
    | [], sub => some (sub.entries.lookup k)
    | p :: ps, sub =>
      match sub.entries.lookup p with
      | none => some none
      | some (.table origin entries) =>
        if mayEnter false origin then find ps ⟨origin, entries⟩ else none
      | some (.array true items) =>
        match items.getLast? with
        | some (.table origin entries) => find ps ⟨origin, entries⟩
        | _ => none
      | some _ => none

end Table
end Reconciliation.Toml
