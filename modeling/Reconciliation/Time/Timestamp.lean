import Reconciliation.Text.Blank

/-!
Points in time and their RFC 3339 text.

A written time may have blanks between its parts, a blank or a letter `t` between date and
time, any fixed offset, and a leap second. A printed one is in UTC with as many groups of
three decimals as it needs.
-/
namespace Reconciliation

/-- Seconds since 1970 in UTC; a second of a billion or more nanoseconds is a leap second. -/
structure Timestamp where
  seconds : Int
  nanos : Nat
  deriving DecidableEq, Inhabited

namespace Timestamp

def isLeapYear (y : Int) : Bool := y % 4 == 0 && (y % 100 != 0 || y % 400 == 0)

def monthLength (y : Int) (m : Nat) : Nat :=
  match m with
  | 2 => if isLeapYear y then 29 else 28
  | 4 | 6 | 9 | 11 => 30
  | _ => 31

/-- Days from 1970-01-01 to a date, by years that begin in March. -/
def daysOfDate (y : Int) (m d : Nat) : Int :=
  let y := if m ≤ 2 then y - 1 else y
  let era := y.fdiv 400
  let yearOfEra := y - era * 400
  let monthFromMarch : Int := (m + 9) % 12
  let dayOfYear : Int := (153 * monthFromMarch + 2) / 5 + d - 1
  let dayOfEra := yearOfEra * 365 + yearOfEra / 4 - yearOfEra / 100 + dayOfYear
  era * 146097 + dayOfEra - 719468

/-- The date that is so many days after 1970-01-01. -/
def dateOfDays (days : Int) : Int × Nat × Nat :=
  let z := days + 719468
  let era := z.fdiv 146097
  let dayOfEra := z - era * 146097
  let yearOfEra := (dayOfEra - dayOfEra / 1460 + dayOfEra / 36524 - dayOfEra / 146096) / 365
  let dayOfYear := dayOfEra - (365 * yearOfEra + yearOfEra / 4 - yearOfEra / 100)
  let monthFromMarch := (5 * dayOfYear + 2) / 153
  let d := dayOfYear - (153 * monthFromMarch + 2) / 5 + 1
  let m := if monthFromMarch < 10 then monthFromMarch + 3 else monthFromMarch - 9
  let y := yearOfEra + era * 400
  (if m ≤ 2 then y + 1 else y, m.toNat, d.toNat)

def padded (width n : Nat) : String :=
  let ds := Nat.toDigits 10 n
  String.ofList (List.replicate (width - ds.length) '0' ++ ds)

def yearText (y : Int) : String :=
  if 0 ≤ y ∧ y ≤ 9999 then padded 4 y.toNat
  else (if y < 0 then "-" else "+") ++ padded 4 y.natAbs

def fractionText (nanos : Nat) : String :=
  if nanos = 0 then ""
  else if nanos % 1000000 = 0 then "." ++ padded 3 (nanos / 1000000)
  else if nanos % 1000 = 0 then "." ++ padded 6 (nanos / 1000)
  else "." ++ padded 9 nanos

def text (t : Timestamp) : String :=
  let leap : Nat := if 1000000000 ≤ t.nanos then 1 else 0
  let days := t.seconds.fdiv 86400
  let ofDay := (t.seconds - days * 86400).toNat
  let (y, m, d) := dateOfDays days
  yearText y ++ "-" ++ padded 2 m ++ "-" ++ padded 2 d ++ "T" ++ padded 2 (ofDay / 3600) ++ ":"
    ++ padded 2 (ofDay / 60 % 60) ++ ":" ++ padded 2 (ofDay % 60 + leap)
    ++ fractionText (t.nanos - leap * 1000000000) ++ "Z"

def natOf (ds : List Char) : Nat := ds.foldl (fun n c => n * 10 + (c.toNat - '0'.toNat)) 0

/-- A number of at least one and at most `width` digits after blanks. -/
def number? (width : Nat) (cs : List Char) : Option (Nat × List Char) :=
  let cs := Text.trimStart cs
  let ds := (cs.takeWhile Char.isDigit).take width
  if ds.isEmpty then none else some (natOf ds, cs.drop ds.length)

/-- A year of at most four digits, or of any number of them after a sign. -/
def year? (cs : List Char) : Option (Int × List Char) :=
  match Text.trimStart cs with
  | '-' :: rest => signed (-1) rest
  | '+' :: rest => signed 1 rest
  | rest => (number? 4 rest).map fun r => (r.1, r.2)
where
  signed (sign : Int) (cs : List Char) : Option (Int × List Char) :=
    let ds := cs.takeWhile Char.isDigit
    if ds.isEmpty then none else some (sign * natOf ds, cs.drop ds.length)

/-- A mark that may stand after blanks. -/
def mark? (c : Char) (cs : List Char) : Option (List Char) :=
  match Text.trimStart cs with
  | d :: rest => if d = c then some rest else none
  | [] => none

/-- Nine decimals at most count; further ones are skipped. -/
def fraction? : List Char → Option (Nat × List Char)
  | '.' :: cs =>
    let ds := cs.takeWhile Char.isDigit
    if ds.isEmpty then none
    else
      let taken := ds.take 9
      some (natOf taken * Nat.pow 10 (9 - taken.length), cs.drop ds.length)
  | cs => some (0, cs)

def twoDigits? : List Char → Option (Nat × List Char)
  | a :: b :: rest => if a.isDigit && b.isDigit then some (natOf [a, b], rest) else none
  | _ => none

/-- `Z`, `UTC`, or a sign, two digits of hours and two of minutes, in seconds. -/
def offset? (cs : List Char) : Option (Int × List Char) :=
  match cs with
  | a :: b :: c :: rest =>
    if [a, b, c].map Char.toUpper = ['U', 'T', 'C'] then some (0, rest) else plain cs
  | _ => plain cs
where
  plain : List Char → Option (Int × List Char)
    | 'Z' :: rest | 'z' :: rest => some (0, rest)
    | '+' :: rest => signed 1 rest
    | '-' :: rest | '\u2212' :: rest => signed (-1) rest
    | _ => none
  signed (sign : Int) (cs : List Char) : Option (Int × List Char) := do
    let (hours, rest) ← twoDigits? cs
    let (minutes, rest) ← twoDigits? (rest.dropWhile fun c => c = ':' || Text.isBlank c)
    if minutes < 60 then some (sign * (hours * 3600 + minutes * 60 : Nat), rest) else none

/-- The time that a text states, where the date exists and the text ends after the offset. -/
def parse? (s : String) : Option Timestamp := do
  let (y, cs) ← year? s.toList
  let (m, cs) ← number? 2 (← mark? '-' cs)
  let (d, cs) ← number? 2 (← mark? '-' cs)
  let cs ← match cs with
    | c :: rest => if c = 't' || c = 'T' || c = ' ' then some rest else none
    | [] => none
  let (hour, cs) ← number? 2 cs
  let (minute, cs) ← number? 2 (← mark? ':' cs)
  let (second, cs) ← number? 2 (← mark? ':' cs)
  let (nanos, cs) ← fraction? cs
  let (offset, cs) ← offset? (Text.trimStart cs)
  let valid := -262143 ≤ y && y ≤ 262142 && 1 ≤ m && m ≤ 12 && 1 ≤ d && d ≤ monthLength y m &&
    hour < 24 && minute < 60 && second ≤ 60 && offset.natAbs < 86400 &&
    (Text.trimStart cs).isEmpty
  if valid then
    let leap := if second = 60 then 1 else 0
    let ofDay : Nat := hour * 3600 + minute * 60 + (second - leap)
    some ⟨daysOfDate y m d * 86400 + ofDay - offset, nanos + leap * 1000000000⟩
  else none

/-- So many milliseconds after 1970 began. -/
def ofMillis (n : Nat) : Timestamp := ⟨n / 1000, n % 1000 * 1000000⟩

end Timestamp
end Reconciliation
