/-! Binary floating-point numbers taken apart into sign, significand and power of two. -/
namespace CodeWeaving.Decimal

/-- The value `significand * 2 ^ exponent`; `tight` when the gap to the number below is half the
gap to the number above. -/
structure Magnitude where
  significand : Nat
  exponent : Int
  tight : Bool
  deriving DecidableEq, Repr

inductive Binary where
  | zero (negative : Bool)
  | finite (negative : Bool) (magnitude : Magnitude)
  | infinite (negative : Bool)
  | undefined
  deriving DecidableEq, Repr

/-- Widths of the two lower fields of an encoding; the sign bit stands above them. -/
structure Encoding where
  fractionBits : Nat
  exponentBits : Nat

namespace Encoding

def single : Encoding := ⟨23, 8⟩
def double : Encoding := ⟨52, 11⟩

def decode (f : Encoding) (bits : Nat) : Binary :=
  let fraction := bits % Nat.pow 2 f.fractionBits
  let biased := bits / Nat.pow 2 f.fractionBits % Nat.pow 2 f.exponentBits
  let negative := bits / Nat.pow 2 (f.fractionBits + f.exponentBits) % 2 = 1
  let least : Int := 2 - Nat.pow 2 (f.exponentBits - 1) - f.fractionBits
  if biased = Nat.pow 2 f.exponentBits - 1 then
    if fraction = 0 then .infinite negative else .undefined
  else if biased = 0 then
    if fraction = 0 then .zero negative else .finite negative ⟨fraction, least, false⟩
  else
    .finite negative
      ⟨Nat.pow 2 f.fractionBits + fraction, least + (biased - 1 : Nat), fraction = 0 && biased != 1⟩

end Encoding

def Binary.ofSingle (x : Float32) : Binary := Encoding.single.decode x.toBits.toNat

def Binary.ofDouble (x : Float) : Binary := Encoding.double.decode x.toBits.toNat

end CodeWeaving.Decimal
