/-!
The shortest decimal that reads back as a given binary float.

A finite float is a significand times a power of two. The reals that round to it form an
interval, closed exactly when the significand is even. Among the decimals of that interval
those with the fewest digits are taken, of these the nearest to the float, and of two
equally near ones the even one. All arithmetic is on natural numbers.
-/
namespace Reconciliation

/-- The number `digits * 10 ^ exponent`. -/
structure Decimal where
  digits : Nat
  exponent : Int
  deriving DecidableEq

/-- A float taken apart; the magnitude of a finite one is `significand * 2 ^ exponent`. -/
inductive FloatParts where
  | finite (negative : Bool) (significand : Nat) (exponent : Int)
  | infinite (negative : Bool)
  | notANumber
  deriving DecidableEq

namespace FloatParts

def ofFloat (x : Float) : FloatParts :=
  let bits : Nat := x.toBits.toNat
  let negative : Bool := Nat.pow 2 63 ≤ bits
  let field : Nat := bits / Nat.pow 2 52 % Nat.pow 2 11
  let fraction : Nat := bits % Nat.pow 2 52
  if field = 2047 then
    if fraction = 0 then .infinite negative else .notANumber
  else if field = 0 then .finite negative fraction (-1074)
  else .finite negative (Nat.pow 2 52 + fraction) (field - 1075)

end FloatParts

namespace Decimal

/-- A ratio of naturals; the denominator is meant to be positive. -/
structure Ratio where
  num : Nat
  den : Nat

/-- `n * 2 ^ e` -/
def Ratio.ofDyadic (n : Nat) (e : Int) : Ratio :=
  if 0 ≤ e then ⟨n * Nat.pow 2 e.toNat, 1⟩ else ⟨n, Nat.pow 2 (-e).toNat⟩

/-- `r / 10 ^ p` -/
def Ratio.scaled (r : Ratio) (p : Int) : Ratio :=
  if 0 ≤ p then ⟨r.num, r.den * Nat.pow 10 p.toNat⟩ else ⟨r.num * Nat.pow 10 (-p).toNat, r.den⟩

/-- The least `j` from a start on, at most `fuel` steps away, with `10 ^ j * r` at least one. -/
def leadingPlace (r : Ratio) : Nat → Nat → Nat
  | 0, j => j
  | fuel + 1, j => if r.den ≤ r.num * Nat.pow 10 j then j else leadingPlace r fuel (j + 1)

/-- The `p` with `10 ^ p ≤ r < 10 ^ (p + 1)` for a positive `r`. -/
def magnitude (r : Ratio) : Int :=
  if r.den ≤ r.num then (Nat.toDigits 10 (r.num / r.den)).length - 1
  else
    Int.negOfNat (leadingPlace r 8 ((r.den.log2 - r.num.log2 - 1) * 30102 / 100000))

/-- Drops the zeros at the end of the digits. -/
def trimmed : Nat → Decimal → Decimal
  | 0, d => d
  | fuel + 1, d =>
    if d.digits ≠ 0 ∧ d.digits % 10 = 0 then trimmed fuel ⟨d.digits / 10, d.exponent + 1⟩ else d

/-- The reals that round to a float, as quarters of its last place. -/
structure Interval where
  low : Nat
  value : Nat
  high : Nat
  closed : Bool
  exponent : Int

def Interval.ofFinite (significand : Nat) (exponent : Int) : Interval where
  low := if significand = Nat.pow 2 52 ∧ -1074 < exponent then 4 * significand - 1
    else 4 * significand - 2
  value := 4 * significand
  high := 4 * significand + 2
  closed := significand % 2 = 0
  exponent := exponent - 2

def Interval.contains (i : Interval) (c : Nat) (p : Int) : Bool :=
  let low := (Ratio.ofDyadic i.low i.exponent).scaled p
  let high := (Ratio.ofDyadic i.high i.exponent).scaled p
  if i.closed then low.num ≤ c * low.den && c * high.den ≤ high.num
  else low.num < c * low.den && c * high.den < high.num

/-- The better of the two neighbours of the value among the multiples of `10 ^ p`. -/
def Interval.candidate? (i : Interval) (p : Int) : Option Decimal :=
  let v := (Ratio.ofDyadic i.value i.exponent).scaled p
  let c := v.num / v.den
  let below := i.contains c p
  let above := i.contains (c + 1) p
  let twice := 2 * (v.num % v.den)
  if below && above then
    if twice < v.den || (twice == v.den && c % 2 == 0) then some ⟨c, p⟩ else some ⟨c + 1, p⟩
  else if below then some ⟨c, p⟩
  else if above then some ⟨c + 1, p⟩
  else none

/-- Tries one digit more at a time; seventeen always suffice. -/
def Interval.search (i : Interval) (top : Int) : Nat → Decimal
  | 0 => (i.candidate? (top - 16)).getD ⟨0, 0⟩
  | fuel + 1 =>
    match i.candidate? (top - (16 - (fuel + 1 : Nat))) with
    | some d => d
    | none => i.search top fuel

/-- The shortest decimal for `significand * 2 ^ exponent`. -/
def shortest (significand : Nat) (exponent : Int) : Decimal :=
  if significand = 0 then ⟨0, 0⟩
  else
    let i := Interval.ofFinite significand exponent
    trimmed 20 (i.search (magnitude (Ratio.ofDyadic i.value i.exponent)) 16)

def digitText (d : Decimal) : List Char := Nat.toDigits 10 d.digits

/-- The power of ten of the first digit. -/
def topExponent (d : Decimal) : Int := d.exponent + d.digitText.length - 1

/-- Positional notation with at least one digit on both sides of the point. -/
def positional (d : Decimal) : String :=
  let ds := d.digitText
  if 0 ≤ d.exponent then
    String.ofList (ds ++ List.replicate d.exponent.toNat '0' ++ ['.', '0'])
  else
    let places := (-d.exponent).toNat
    if places < ds.length then
      String.ofList (ds.take (ds.length - places) ++ '.' :: ds.drop (ds.length - places))
    else String.ofList ('0' :: '.' :: List.replicate (places - ds.length) '0' ++ ds)

/-- One digit, the others after a point if there are any, and a signed exponent. -/
def scientific (d : Decimal) : String :=
  let mantissa := match d.digitText with
    | [] => ['0']
    | [c] => [c]
    | c :: rest => c :: '.' :: rest
  let e := d.topExponent
  let sign := if e < 0 then '-' else '+'
  String.ofList (mantissa ++ 'e' :: sign :: Nat.toDigits 10 e.natAbs)

end Decimal
end Reconciliation
