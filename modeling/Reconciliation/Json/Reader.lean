import Reconciliation.Json.Basic

/-!
Reading JSON text.

A number without fraction and exponent is a whole number where it fits into 64 bits, signed
or unsigned. Any other number is a float: its significand takes the leading digits that fit
into 64 bits and is scaled by a power of ten in floating point. Values nest at most 127 deep.
-/
namespace Reconciliation.Json

/-- The parts of a number as written. -/
structure Numeral where
  negative : Bool
  whole : List Char
  fraction : Option (List Char)
  exponent : Option (Bool × List Char)

def digitValue (c : Char) : Nat := c.toNat - '0'.toNat

def natOfDigits (ds : List Char) : Nat := ds.foldl (fun n c => n * 10 + digitValue c) 0

/-- Takes digits while the significand fits into 64 bits; also says how many were taken. -/
def takeDigits (significand taken : Nat) : List Char → Nat × Nat
  | [] => (significand, taken)
  | c :: rest =>
    let next := significand * 10 + digitValue c
    if next ≤ maxUInt64 then takeDigits next (taken + 1) rest else (significand, taken)

/-- `x * 10 ^ e`, and `none` where that is too large; tiny factors are applied in steps. -/
def scaleByTen (x : Float) (e : Int) : Nat → Option Float
  | 0 => some x
  | fuel + 1 =>
    if e.natAbs ≤ 308 then
      let power := Float.ofScientific 1 false e.natAbs
      if 0 ≤ e then
        let y := x * power
        if y.isInf then none else some y
      else some (x / power)
    else if x == 0.0 then some x
    else if 0 ≤ e then none
    else scaleByTen (x / 1e308) (e + 308) fuel

namespace Numeral

def signed (n : Numeral) (x : Float) : Json := .float (if n.negative then -x else x)

/-- The exponent as written; `none` where it does not fit into 31 bits. -/
def statedExponent (n : Numeral) : Option Int :=
  match n.exponent with
  | none => some 0
  | some (minus, ds) =>
    let e := natOfDigits ds
    if e < Nat.pow 2 31 then some (if minus then -(e : Int) else e) else none

def toFloat? (n : Numeral) : Option Json :=
  let (significand, taken) := takeDigits 0 0 n.whole
  let dropped := n.whole.length - taken
  let (significand, places) := takeDigits significand 0 (n.fraction.getD [])
  match n.statedExponent with
  | some e => (scaleByTen significand.toFloat (dropped - places + e) 4).map n.signed
  | none =>
    if significand ≠ 0 ∧ n.exponent.any (!·.1) then none else some (n.signed 0.0)

def toJson? (n : Numeral) : Option Json :=
  match n.fraction, n.exponent with
  | none, none =>
    let m := natOfDigits n.whole
    if n.negative then
      if m = 0 ∨ Nat.pow 2 63 < m then n.toFloat? else some (.int (-(m : Int)))
    else if m ≤ maxUInt64 then some (.int m)
    else n.toFloat?
  | _, _ => n.toFloat?

end Numeral

def isBlank (c : Char) : Bool := c = ' ' || c = '\n' || c = '\t' || c = '\r'

def skipBlanks (cs : List Char) : List Char := cs.dropWhile isBlank

def readFraction? : List Char → Option (Option (List Char) × List Char)
  | '.' :: cs =>
    let ds := cs.takeWhile Char.isDigit
    if ds.isEmpty then none else some (some ds, cs.dropWhile Char.isDigit)
  | cs => some (none, cs)

def readExponent? : List Char → Option (Option (Bool × List Char) × List Char)
  | c :: cs =>
    if c = 'e' || c = 'E' then
      let (minus, cs) := match cs with
        | '-' :: rest => (true, rest)
        | '+' :: rest => (false, rest)
        | rest => (false, rest)
      let ds := cs.takeWhile Char.isDigit
      if ds.isEmpty then none else some (some (minus, ds), cs.dropWhile Char.isDigit)
    else some (none, c :: cs)
  | [] => some (none, [])

def readNumeral? (cs : List Char) : Option (Numeral × List Char) := do
  let (negative, cs) := match cs with
    | '-' :: rest => (true, rest)
    | rest => (false, rest)
  let whole := cs.takeWhile Char.isDigit
  if whole.isEmpty || (whole.head? = some '0' && 1 < whole.length) then none
  let (fraction, rest) ← readFraction? (cs.dropWhile Char.isDigit)
  let (exponent, rest) ← readExponent? rest
  some (⟨negative, whole, fraction, exponent⟩, rest)

def hexValue? (c : Char) : Option Nat :=
  if c.isDigit then some (c.toNat - '0'.toNat)
  else if 'a' ≤ c ∧ c ≤ 'f' then some (c.toNat - 'a'.toNat + 10)
  else if 'A' ≤ c ∧ c ≤ 'F' then some (c.toNat - 'A'.toNat + 10)
  else none

def readHex4? : List Char → Option (Nat × List Char)
  | a :: b :: c :: d :: rest => do
    let a ← hexValue? a
    let b ← hexValue? b
    let c ← hexValue? c
    let d ← hexValue? d
    some (((a * 16 + b) * 16 + c) * 16 + d, rest)
  | _ => none

/-- A code unit after `\u`; a high surrogate must be followed by a low one. -/
def readUnicode? (cs : List Char) : Option (Char × List Char) := do
  let (high, rest) ← readHex4? cs
  if 0xD800 ≤ high ∧ high < 0xDC00 then
    match rest with
    | '\\' :: 'u' :: rest =>
      let (low, rest) ← readHex4? rest
      if 0xDC00 ≤ low ∧ low < 0xE000 then
        some (Char.ofNat (0x10000 + (high - 0xD800) * 0x400 + (low - 0xDC00)), rest)
      else none
    | _ => none
  else if 0xDC00 ≤ high ∧ high < 0xE000 then none
  else some (Char.ofNat high, rest)

def simpleEscape? : Char → Option Char
  | '"' => some '"'
  | '\\' => some '\\'
  | '/' => some '/'
  | 'b' => some (Char.ofNat 8)
  | 'f' => some (Char.ofNat 12)
  | 'n' => some '\n'
  | 'r' => some '\r'
  | 't' => some '\t'
  | _ => none

/-- Reads up to the closing quote; the characters so far are in reverse order. -/
def readString? : Nat → List Char → List Char → Option (String × List Char)
  | 0, _, _ => none
  | fuel + 1, acc, cs =>
    match cs with
    | [] => none
    | '"' :: rest => some (String.ofList acc.reverse, rest)
    | '\\' :: 'u' :: rest => do
      let (c, rest) ← readUnicode? rest
      readString? fuel (c :: acc) rest
    | '\\' :: c :: rest => do
      let c ← simpleEscape? c
      readString? fuel (c :: acc) rest
    | c :: rest => if c.toNat < 32 then none else readString? fuel (c :: acc) rest

def readWord? (word : String) (cs : List Char) : Option (List Char) :=
  if word.toList.isPrefixOf cs then some (cs.drop word.length) else none

mutual

/-- Reads one value; every call spends one unit of fuel and at least one character. -/
def readValue? : Nat → Nat → List Char → Option (Json × List Char)
  | 0, _, _ => none
  | fuel + 1, depth, cs =>
    match skipBlanks cs with
    | [] => none
    | 'n' :: rest => (readWord? "ull" rest).map (.null, ·)
    | 't' :: rest => (readWord? "rue" rest).map (.bool true, ·)
    | 'f' :: rest => (readWord? "alse" rest).map (.bool false, ·)
    | '"' :: rest => (readString? (rest.length + 1) [] rest).map fun r => (.str r.1, r.2)
    | '[' :: rest =>
      if depth ≤ 1 then none
      else
        match skipBlanks rest with
        | ']' :: rest => some (.arr [], rest)
        | rest => readItems? fuel (depth - 1) [] rest
    | '\x7b' :: rest =>
      if depth ≤ 1 then none
      else
        match skipBlanks rest with
        | '\x7d' :: rest => some (.obj [], rest)
        | rest => readFields? fuel (depth - 1) [] rest
    | rest => do
      let (numeral, rest) ← readNumeral? rest
      let value ← numeral.toJson?
      some (value, rest)

def readItems? : Nat → Nat → List Json → List Char → Option (Json × List Char)
  | 0, _, _, _ => none
  | fuel + 1, depth, acc, cs => do
    let (value, rest) ← readValue? fuel depth cs
    match skipBlanks rest with
    | ',' :: rest => readItems? fuel depth (value :: acc) rest
    | ']' :: rest => some (.arr (value :: acc).reverse, rest)
    | _ => none

def readFields? : Nat → Nat → List (String × Json) → List Char → Option (Json × List Char)
  | 0, _, _, _ => none
  | fuel + 1, depth, acc, cs =>
    match skipBlanks cs with
    | '"' :: rest => do
      let (key, rest) ← readString? (rest.length + 1) [] rest
      match skipBlanks rest with
      | ':' :: rest =>
        let (value, rest) ← readValue? fuel depth rest
        match skipBlanks rest with
        | ',' :: rest => readFields? fuel depth ((key, value) :: acc) rest
        | '\x7d' :: rest => some (.object ((key, value) :: acc).reverse, rest)
        | _ => none
      | _ => none
    | _ => none

end

/-- The value of a whole text. -/
def parse? (text : String) : Option Json := do
  let cs := text.toList
  let (value, rest) ← readValue? (2 * cs.length + 2) 128 cs
  if (skipBlanks rest).isEmpty then some value else none

end Reconciliation.Json
