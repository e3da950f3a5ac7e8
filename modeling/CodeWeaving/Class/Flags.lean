/-! Access flags, of which only the known ones are kept. -/
namespace CodeWeaving

/-- A set of flags within a mask. -/
structure Flags (mask : UInt16) where
  bits : UInt16
  known : bits &&& mask = bits
  deriving DecidableEq

namespace Flags

variable {mask : UInt16}

def ofBits (mask bits : UInt16) : Flags mask :=
  ⟨bits &&& mask, by rw [UInt16.and_assoc, UInt16.and_self]⟩

theorem ofBits_bits (f : Flags mask) : ofBits mask f.bits = f := by
  cases f with | mk bits known => simp [ofBits, known]

def has (f : Flags mask) (flag : UInt16) : Bool := f.bits &&& flag != 0

end Flags

/-- Flag of members that belong to the class and not to its instances. -/
def staticFlag : UInt16 := 0x8

abbrev MethodFlags := Flags 0x1dff

abbrev FieldFlags := Flags 0x50df

end CodeWeaving
