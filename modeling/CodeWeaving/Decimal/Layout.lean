import CodeWeaving.Decimal.Shortest

/-! Ways to set out the digits of a number. -/
namespace CodeWeaving.Decimal

structure Layout where
  tie : Tie
  /-- Whether a number whose first digit has this power of ten is written without an exponent. -/
  positional : Int → Bool
  /-- What follows a whole number written without an exponent. -/
  wholeSuffix : String
  positiveExponent : String
  infinity : String
  negativeInfinity : String
  undefined : String

namespace Layout

def withoutExponent (f : Layout) (digits : List Char) (exponent : Int) : String :=
  if 0 ≤ exponent then
    String.ofList (digits ++ List.replicate exponent.toNat '0') ++ f.wholeSuffix
  else
    let places := (-exponent).toNat
    let padded := List.replicate (places + 1 - digits.length) '0' ++ digits
    let whole := padded.length - places
    String.ofList (padded.take whole ++ '.' :: padded.drop whole)

def withExponent (f : Layout) (digits : List Char) (leading : Int) : String :=
  let mantissa := match digits with
    | first :: second :: rest => String.ofList (first :: '.' :: second :: rest)
    | digits => String.ofList digits
  mantissa ++ "e" ++ (if 0 ≤ leading then f.positiveExponent else "") ++ toString leading

def render (f : Layout) : Binary → String
  | .undefined => f.undefined
  | .infinite negative => if negative then f.negativeInfinity else f.infinity
  | .zero negative => (if negative then "-0" else "0") ++ f.wholeSuffix
  | .finite negative x =>
    let d := x.shortest f.tie
    let digits := Nat.toDigits 10 d.digits
    let kept := (digits.reverse.dropWhile (· = '0')).reverse
    let exponent := d.exponent + (digits.length - kept.length : Nat)
    let leading := exponent + kept.length - 1
    (if negative then "-" else "") ++
      if f.positional leading then f.withoutExponent kept exponent
      else f.withExponent kept leading

end Layout

end CodeWeaving.Decimal
