import Reconciliation.Json.Printer
import Reconciliation.Number.Shortest

/-!
Printing TOML documents of two levels: entries first, then tables under headers.

A string is written in the first form that needs no escape, of one basic line, one literal
line, several basic lines and several literal lines. With control characters it is a basic
string with escapes. Lists of two or more texts have a line for each item.
-/
namespace Reconciliation.Toml

/-- A value as it is printed after a key. -/
inductive Entry where
  | text (s : String)
  | bool (b : Bool)
  | nat (n : Nat)
  | float (x : Float)
  | texts (items : List String)

/-- A document of entries and of tables under headers. -/
structure Document where
  entries : List (String × Entry)
  tables : List (String × List (String × Entry))

/-- The longest run of a character. -/
def longestRun (c : Char) (cs : List Char) : Nat :=
  (cs.foldl (fun (best, run) d =>
    if d = c then (max best (run + 1), run + 1) else (best, 0)) (0, 0)).1

/-- What decides the form of a string. -/
structure Shape where
  controls : Bool
  backslash : Bool
  lineBreak : Bool
  doubleRun : Nat
  singleRun : Nat

def Shape.ofList (cs : List Char) : Shape where
  controls := cs.any fun c => (c.toNat < 32 && c ≠ '\n') || c.toNat = 127
  backslash := cs.contains '\\'
  lineBreak := cs.contains '\n'
  doubleRun := longestRun '"' cs
  singleRun := longestRun '\'' cs

def upperHex (n : Nat) : Char := (Nat.digitChar (n % 16)).toUpper

def controlEscape (c : Char) : String :=
  if c.toNat = 8 then "\\b"
  else if c = '\t' then "\\t"
  else if c = '\n' then "\\n"
  else if c.toNat = 12 then "\\f"
  else if c = '\r' then "\\r"
  else String.ofList ['\\', 'u', '0', '0', upperHex (c.toNat / 16), upperHex c.toNat]

/-- The inside of a basic string; on several lines two quotes in a row need no escape. -/
def escapedFrom (severalLines : Bool) (run : Nat) : List Char → String
  | [] => ""
  | c :: rest =>
    if c = '"' then
      if run < (if severalLines then 2 else 0) then
        "\"" ++ escapedFrom severalLines (run + 1) rest
      else "\\\"" ++ escapedFrom severalLines 0 rest
    else if c = '\\' then "\\\\" ++ escapedFrom severalLines 0 rest
    else if c = '\n' && severalLines then "\n" ++ escapedFrom severalLines 0 rest
    else if c.toNat < 32 || c.toNat = 127 then
      controlEscape c ++ escapedFrom severalLines 0 rest
    else c.toString ++ escapedFrom severalLines 0 rest

def textForm (s : String) : String :=
  let cs := s.toList
  let shape := Shape.ofList cs
  let start := if shape.lineBreak then "\n" else ""
  if !shape.controls && !shape.backslash && shape.doubleRun = 0 && !shape.lineBreak then
    "\"" ++ s ++ "\""
  else if !shape.controls && shape.singleRun = 0 && !shape.lineBreak then "'" ++ s ++ "'"
  else if !shape.controls && !shape.backslash && shape.doubleRun ≤ 2 then
    "\"\"\"" ++ start ++ s ++ "\"\"\""
  else if !shape.controls && shape.singleRun ≤ 2 then "'''" ++ start ++ s ++ "'''"
  else if shape.lineBreak then "\"\"\"\n" ++ escapedFrom true 0 cs ++ "\"\"\""
  else "\"" ++ escapedFrom false 0 cs ++ "\""

def isBare (cs : List Char) : Bool :=
  !cs.isEmpty && cs.all fun c => c.isAlphanum || c = '_' || c = '-'

def keyForm (s : String) : String :=
  let cs := s.toList
  let shape := Shape.ofList cs
  let controls := shape.controls || shape.lineBreak
  if isBare cs then s
  else if !controls && !shape.backslash && shape.doubleRun = 0 then "\"" ++ s ++ "\""
  else if !controls && shape.singleRun = 0 then "'" ++ s ++ "'"
  else "\"" ++ escapedFrom false 0 cs ++ "\""

/-- Floats are positional at any size. -/
def floatForm (x : Float) : String :=
  match FloatParts.ofFloat x with
  | .finite negative significand exponent =>
    (if negative then "-" else "") ++ (Decimal.shortest significand exponent).positional
  | .infinite negative => if negative then "-inf" else "inf"
  | .notANumber => "nan"

def Entry.form : Entry → String
  | .text s => textForm s
  | .bool b => if b then "true" else "false"
  | .nat n => toString n
  | .float x => floatForm x
  | .texts [] => "[]"
  | .texts [s] => "[" ++ textForm s ++ "]"
  | .texts items => "[\n" ++ String.join (items.map fun s => "    " ++ textForm s ++ ",\n") ++ "]"

def entryLines (entries : List (String × Entry)) : String :=
  String.join (entries.map fun e => keyForm e.1 ++ " = " ++ e.2.form ++ "\n")

def Document.text (d : Document) : String :=
  entryLines d.entries ++
    String.join (d.tables.map fun t => "\n[" ++ keyForm t.1 ++ "]\n" ++ entryLines t.2)

end Reconciliation.Toml
