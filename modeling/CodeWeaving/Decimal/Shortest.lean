import CodeWeaving.Decimal.Binary

/-! The fewest decimal digits that read back as a given binary number. -/
namespace CodeWeaving.Decimal

/-- The value `digits * 10 ^ exponent`. -/
structure Numeral where
  digits : Nat
  exponent : Int
  deriving DecidableEq, Repr

/-- Which of two equally near decimals to take. -/
inductive Tie where
  | upward
  | toEven
  deriving DecidableEq, Repr

/-- A number with the ends of the interval of reals nearest to it, over one denominator. -/
structure Interval where
  low : Nat
  value : Nat
  high : Nat
  denominator : Nat
  /-- Whether the ends themselves read back as the number. -/
  closed : Bool

def Magnitude.interval (x : Magnitude) : Interval :=
  let up := Nat.pow 2 (x.exponent - 2).toNat
  let m := 4 * x.significand
  ⟨(m - if x.tight then 1 else 2) * up, m * up, (m + 2) * up, Nat.pow 2 (2 - x.exponent).toNat,
    x.significand % 2 = 0⟩

def digitCount (n : Nat) : Nat := (Nat.toDigits 10 n).length

namespace Interval

/-- The power of ten of the value's first digit. -/
def decade (i : Interval) : Int :=
  if i.denominator ≤ i.value then (digitCount (i.value / i.denominator) : Int) - 1
  else -(digitCount ((i.denominator + i.value - 1) / i.value - 1) : Int)

/-- The interval stretched so that the decimals of a given exponent are the integers. -/
def scale (i : Interval) (exponent : Int) : Interval :=
  let up := Nat.pow 10 (-exponent).toNat
  { i with
    low := i.low * up
    value := i.value * up
    high := i.high * up
    denominator := i.denominator * Nat.pow 10 exponent.toNat }

def contains (i : Interval) (n : Nat) : Bool :=
  let x := n * i.denominator
  if i.closed then i.low ≤ x && x ≤ i.high else i.low < x && x < i.high

/-- The nearer of the value's integer neighbours, of those in the interval. -/
def nearest? (i : Interval) (tie : Tie) : Option Nat :=
  let below := i.value / i.denominator
  let twice := 2 * (i.value % i.denominator)
  match i.contains below, i.contains (below + 1) with
  | false, false => none
  | true, false => some below
  | false, true => some (below + 1)
  | true, true =>
    if twice < i.denominator then some below
    else if i.denominator < twice then some (below + 1)
    else match tie with
      | .upward => some (below + 1)
      | .toEven => some (if below % 2 = 0 then below else below + 1)

def atLength? (i : Interval) (tie : Tie) (length : Nat) : Option Numeral :=
  let exponent := i.decade - length + 1
  ((i.scale exponent).nearest? tie).map (⟨·, exponent⟩)

end Interval

/-- Seventeen digits tell any two doubles apart. -/
def Magnitude.shortest (x : Magnitude) (tie : Tie) : Numeral :=
  ((List.range 17).findSome? fun n => x.interval.atLength? tie (n + 1)).getD ⟨0, 0⟩

end CodeWeaving.Decimal
