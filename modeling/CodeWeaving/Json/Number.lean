import CodeWeaving.Json.Basic

/-! Numbers in JSON text. -/
namespace CodeWeaving.Json

/-- Adds decimal digits to a significand for as long as it fits sixty-four bits; hands back the
digits that were left. -/
def absorb (significand : Nat) : List Char → Nat × List Char
  | [] => (significand, [])
  | c :: digits =>
    let grown := significand * 10 + (c.toNat - '0'.toNat)
    if grown < UInt64.size then absorb grown digits else (significand, c :: digits)

def digitsValue (digits : List Char) : Nat :=
  digits.foldl (fun n c => n * 10 + (c.toNat - '0'.toNat)) 0

def powerOfTen (n : Nat) : Float := Float.ofScientific 1 false n

/-- The double next to `significand * 10 ^ exponent`, up to the rounding of each step; nothing if
it is too large for one. -/
def scaled? (significand : Nat) (exponent : Int) : Option Float :=
  let x := (UInt64.ofNat significand).toFloat
  let n := exponent.natAbs
  if significand = 0 then some 0
  else if 0 ≤ exponent then
    if n ≤ 308 then
      let y := x * powerOfTen n
      if y.isInf then none else some y
    else none
  else if n ≤ 308 then some (x / powerOfTen n)
  else if n ≤ 616 then some (x / powerOfTen 308 / powerOfTen (n - 308))
  else some 0

/-- A double with a sign, if there is one so large. -/
def ofMagnitude (negative : Bool) : Option Float → Json
  | some x => .double (if negative then -x else x)
  | none => .unusable

/-- A number without fraction and exponent is an integer if it fits sixty-four bits. Minus zero
does not. -/
def wholeNumber (negative : Bool) (digits : List Char) : Json :=
  let n := digitsValue digits
  let (significand, rest) := absorb 0 digits
  if rest = [] then
    if !negative then .integer n
    else if n ≠ 0 ∧ n ≤ 0x8000000000000000 then .integer (-n)
    else .double (-(UInt64.ofNat n).toFloat)
  else ofMagnitude negative (scaled? significand rest.length)

/-- The exponent after its letter: an optional sign and at least one digit. -/
def exponent? (cs : List Char) : Option Int :=
  let (sign, digits) : Int × List Char := match cs with
    | '+' :: r => (1, r)
    | '-' :: r => (-1, r)
    | r => (1, r)
  if digits ≠ [] ∧ digits.all Char.isDigit then some (sign * digitsValue digits) else none

/-- A number with a fraction, an exponent or both. -/
def fractional (negative : Bool) (whole fraction : List Char) (exponent : Int) : Json :=
  let (upper, dropped) := absorb 0 whole
  let (significand, unread) := absorb upper fraction
  let places : Int := (dropped.length : Int) - (fraction.length - unread.length : Nat)
  ofMagnitude negative (scaled? significand (places + exponent))

/-- The number that is written, if the form is right. -/
def number? (cs : List Char) : Option Json :=
  let (negative, cs) := match cs with
    | '-' :: r => (true, r)
    | r => (false, r)
  let whole := cs.takeWhile Char.isDigit
  if whole = [] ∨ (whole.head? = some '0' ∧ 1 < whole.length) then none
  else match cs.dropWhile Char.isDigit with
    | [] => some (wholeNumber negative whole)
    | '.' :: r =>
      let fraction := r.takeWhile Char.isDigit
      if fraction = [] then none
      else match r.dropWhile Char.isDigit with
        | [] => some (fractional negative whole fraction 0)
        | c :: r =>
          if c = 'e' ∨ c = 'E' then
            (exponent? r).map fun e => fractional negative whole fraction e
          else none
    | c :: r =>
      if c = 'e' ∨ c = 'E' then (exponent? r).map fun e => fractional negative whole [] e
      else none

end CodeWeaving.Json
