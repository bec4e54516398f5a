import Reconciliation.Json.Basic
import Reconciliation.Number.Shortest

/-!
JSON text: a compact form without blanks and a form indented by two blanks a level.
-/
namespace Reconciliation.Json

/-- Floats from 1e-5 up to below 1e16 are positional, others have an exponent. -/
def floatText (x : Float) : String :=
  match FloatParts.ofFloat x with
  | .finite negative significand exponent =>
    let d := Decimal.shortest significand exponent
    let sign := if negative then "-" else ""
    if significand = 0 ∨ (-5 ≤ d.topExponent ∧ d.topExponent < 16) then sign ++ d.positional
    else sign ++ d.scientific
  | _ => "null"

def hexDigit (n : Nat) : Char := Nat.digitChar (n % 16)

/-- A character inside quotes: quote, backslash and controls are escaped, others stand. -/
def escaped (c : Char) : String :=
  if c = '"' then "\\\""
  else if c = '\\' then "\\\\"
  else if c = '\n' then "\\n"
  else if c = '\r' then "\\r"
  else if c = '\t' then "\\t"
  else if c.toNat = 8 then "\\b"
  else if c.toNat = 12 then "\\f"
  else if c.toNat < 32 then
    String.ofList ['\\', 'u', '0', '0', hexDigit (c.toNat / 16), hexDigit c.toNat]
  else c.toString

def quoted (s : String) : String :=
  s.foldl (fun acc c => acc ++ escaped c) "\"" ++ "\""

mutual

/-- Appends the compact text of a value. -/
def writeTo (acc : String) : Json → String
  | null => acc ++ "null"
  | bool true => acc ++ "true"
  | bool false => acc ++ "false"
  | int n => acc ++ toString n
  | float x => acc ++ floatText x
  | str s => acc ++ quoted s
  | arr [] => acc ++ "[]"
  | arr (a :: rest) => writeItemsTo (writeTo (acc ++ "[") a) rest
  | obj [] => acc ++ "\x7b\x7d"
  | obj ((k, a) :: rest) => writeFieldsTo (writeTo (acc ++ "\x7b" ++ quoted k ++ ":") a) rest

/-- Appends the items after the first one and the closing bracket. -/
def writeItemsTo (acc : String) : List Json → String
  | [] => acc ++ "]"
  | a :: rest => writeItemsTo (writeTo (acc ++ ",") a) rest

def writeFieldsTo (acc : String) : List (String × Json) → String
  | [] => acc ++ "\x7d"
  | (k, a) :: rest => writeFieldsTo (writeTo (acc ++ "," ++ quoted k ++ ":") a) rest

end

/-- Compact text. -/
def render (j : Json) : String := writeTo "" j

def lineBreak (depth : Nat) : String := "\n" ++ String.ofList (List.replicate (2 * depth) ' ')

mutual

/-- Appends the indented text of a value that stands at a depth. -/
def prettyTo (depth : Nat) (acc : String) : Json → String
  | arr [] => acc ++ "[]"
  | arr (a :: rest) =>
    prettyItemsTo depth (prettyTo (depth + 1) (acc ++ "[" ++ lineBreak (depth + 1)) a) rest
  | obj [] => acc ++ "\x7b\x7d"
  | obj ((k, a) :: rest) =>
    prettyFieldsTo depth
      (prettyTo (depth + 1) (acc ++ "\x7b" ++ lineBreak (depth + 1) ++ quoted k ++ ": ") a) rest
  | scalar => writeTo acc scalar

def prettyItemsTo (depth : Nat) (acc : String) : List Json → String
  | [] => acc ++ lineBreak depth ++ "]"
  | a :: rest =>
    prettyItemsTo depth (prettyTo (depth + 1) (acc ++ "," ++ lineBreak (depth + 1)) a) rest

def prettyFieldsTo (depth : Nat) (acc : String) : List (String × Json) → String
  | [] => acc ++ lineBreak depth ++ "\x7d"
  | (k, a) :: rest =>
    prettyFieldsTo depth
      (prettyTo (depth + 1) (acc ++ "," ++ lineBreak (depth + 1) ++ quoted k ++ ": ") a) rest

end

/-- Text with a line for each item and each field. -/
def pretty (j : Json) : String := prettyTo 0 "" j

end Reconciliation.Json
