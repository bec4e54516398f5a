import Reconciliation.Json.Reader
import Reconciliation.Toml.Value

/-!
Unquoted TOML scalars: booleans, whole numbers, floats and date-times.

A scalar is read from the whole run of characters that could belong to it. Underscores stand
between digits only. A whole number has at most 128 bits and a written float must be finite.
-/
namespace Reconciliation.Toml

def isHexDigit (c : Char) : Bool := (Json.hexValue? c).isSome

def isOctalDigit (c : Char) : Bool := '0' ≤ c && c ≤ '7'

def isBinaryDigit (c : Char) : Bool := c = '0' || c = '1'

/-- The digits of a run in which single underscores stand between digits. -/
def separated? (isDigit : Char → Bool) : List Char → Option (List Char)
  | [] => none
  | [c] => if isDigit c then some [c] else none
  | c :: '_' :: rest => if isDigit c then (separated? isDigit rest).map (c :: ·) else none
  | c :: rest => if isDigit c then (separated? isDigit rest).map (c :: ·) else none

def natOfBase (base : Nat) (ds : List Char) : Nat :=
  ds.foldl (fun n c => n * base + (Json.hexValue? c).getD 0) 0

/-- Decimal digits without a leading zero. -/
def decimal? (cs : List Char) : Option (List Char) := do
  let ds ← separated? Char.isDigit cs
  if ds.head? = some '0' && 1 < ds.length then none else some ds

def takeSign : List Char → Bool × List Char
  | '-' :: rest => (true, rest)
  | '+' :: rest => (false, rest)
  | rest => (false, rest)

def inRange? (n : Int) : Option Value :=
  if -(Nat.pow 2 127 : Int) ≤ n ∧ n < (Nat.pow 2 128 : Int) then some (.int n) else none

def integer? : List Char → Option Value
  | '0' :: 'x' :: rest => do inRange? (natOfBase 16 (← separated? isHexDigit rest))
  | '0' :: 'o' :: rest => do inRange? (natOfBase 8 (← separated? isOctalDigit rest))
  | '0' :: 'b' :: rest => do inRange? (natOfBase 2 (← separated? isBinaryDigit rest))
  | cs => do
    let (negative, cs) := takeSign cs
    let n := natOfBase 10 (← decimal? cs)
    inRange? (if negative then -n else n)

/-- The float nearest to `digits * 10 ^ exponent`; far exponents are decided by size alone. -/
def nearestFloat (digits : List Char) (exponent : Int) : Float :=
  let m := natOfBase 10 digits
  let size := exponent + (digits.dropWhile (· = '0')).length
  if m = 0 ∨ size < -400 then 0.0
  else if 400 < size then 1.0 / 0.0
  else if exponent < 0 then Float.ofScientific m true exponent.natAbs
  else Float.ofScientific m false exponent.natAbs

/-- The part of a run before the first of some marks, and the part after it if there is one. -/
def cutAt (isMark : Char → Bool) (cs : List Char) : List Char × Option (List Char) :=
  match cs.dropWhile (!isMark ·) with
  | [] => (cs, none)
  | _ :: rest => (cs.takeWhile (!isMark ·), some rest)

def float? (cs : List Char) : Option Value := do
  let (negative, cs) := takeSign cs
  let signed (x : Float) : Value := .float (if negative then -x else x)
  if cs = "inf".toList then some (signed (1.0 / 0.0))
  else if cs = "nan".toList then some (.float (0.0 / 0.0))
  else
    let (mantissa, exponent) := cutAt (fun c => c = 'e' || c = 'E') cs
    let (whole, fraction) := cutAt (· = '.') mantissa
    let whole ← decimal? whole
    let fraction ← match fraction with
      | none => some []
      | some f => separated? Char.isDigit f
    let exponent : Int ← match exponent with
      | none => some 0
      | some e =>
        let (minus, e) := takeSign e
        (separated? Char.isDigit e).map fun ds =>
          if minus then -(natOfBase 10 ds : Int) else natOfBase 10 ds
    let x := nearestFloat (whole ++ fraction) (exponent - fraction.length)
    if x.isInf then none else some (signed x)

def daysInMonth (y m : Nat) : Nat :=
  if m = 2 then (if y % 4 = 0 ∧ (y % 100 ≠ 0 ∨ y % 400 = 0) then 29 else 28)
  else if m = 4 ∨ m = 6 ∨ m = 9 ∨ m = 11 then 30
  else 31

def digits? (ds : List Char) : Option Nat :=
  if ds.all Char.isDigit then some (natOfBase 10 ds) else none

/-- A date of ten characters and what follows it. -/
def date? : List Char → Option (List Char × List Char)
  | a :: b :: c :: d :: '-' :: e :: f :: '-' :: g :: h :: rest => do
    let y ← digits? [a, b, c, d]
    let m ← digits? [e, f]
    let day ← digits? [g, h]
    if 1 ≤ m ∧ m ≤ 12 ∧ 1 ≤ day ∧ day ≤ daysInMonth y m then
      some ([a, b, c, d, '-', e, f, '-', g, h], rest)
    else none
  | _ => none

/-- The decimals of a second that count, without zeros at their end. -/
def secondFraction? : List Char → Option (List Char × List Char)
  | '.' :: rest =>
    let ds := rest.takeWhile Char.isDigit
    if ds.isEmpty then none
    else
      let kept := ((ds.take 9).reverse.dropWhile (· = '0')).reverse
      some (if kept.isEmpty then [] else '.' :: kept, rest.drop ds.length)
  | rest => some ([], rest)

/-- A time of day; the seconds may be left out. -/
def time? : List Char → Option (List Char × List Char)
  | a :: b :: ':' :: c :: d :: rest => do
    let hour ← digits? [a, b]
    let minute ← digits? [c, d]
    if hour < 24 ∧ minute < 60 then
      match rest with
      | ':' :: e :: f :: rest =>
        let second ← digits? [e, f]
        if second ≤ 60 then
          let (fraction, rest) ← secondFraction? rest
          some ([a, b, ':', c, d, ':', e, f] ++ fraction, rest)
        else none
      | ':' :: _ => none
      | rest => some ([a, b, ':', c, d, ':', '0', '0'], rest)
    else none
  | _ => none

def offset? : List Char → Option (List Char)
  | [] => some []
  | ['Z'] | ['z'] => some ['Z']
  | [s, a, b, ':', c, d] => do
    let hour ← digits? [a, b]
    let minute ← digits? [c, d]
    if (s = '+' ∨ s = '-') ∧ hour < 24 ∧ minute < 60 then some [s, a, b, ':', c, d] else none
  | _ => none

/-- A date, a time of day, or both with or without an offset. -/
def datetime? (cs : List Char) : Option Value :=
  match date? cs with
  | some (date, []) => some (.datetime (String.ofList date))
  | some (date, mark :: rest) => do
    if mark = 'T' ∨ mark = 't' ∨ mark = ' ' then
      let (time, rest) ← time? rest
      let offset ← offset? rest
      some (.datetime (String.ofList (date ++ 'T' :: time ++ offset)))
    else none
  | none =>
    match time? cs with
    | some (time, []) => some (.datetime (String.ofList time))
    | _ => none

def scalar? (cs : List Char) : Option Value :=
  if cs = "true".toList then some (.bool true)
  else if cs = "false".toList then some (.bool false)
  else (integer? cs).or ((datetime? cs).or (float? cs))

end Reconciliation.Toml
