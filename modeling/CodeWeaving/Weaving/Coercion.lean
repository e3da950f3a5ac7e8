import CodeWeaving.Weaving.Handler
import CodeWeaving.Weaving.InPlace

/-! Conversions between the values that woven code has and those that handlers take. -/
namespace CodeWeaving

/-- Appends to code. -/
def Code.emit (more : Code) : InPlace Code Unit := InPlace.update fun code => .ok (code ++ more)

namespace BaseType

/-- The conversion to a wider primitive, which is no code at all within kind `int`. -/
def widen? (source target : BaseType) : Option Code :=
  let convert (opcode : UInt8) : Option Code :=
    some [.raw ⟨opcode, [], UInt8.ofNat source.width, UInt8.ofNat target.width⟩]
  if source.kind = .int ∧ target = .int then some []
  else if source.kind = .int ∧ source ≠ .boolean then
    match target with
    | .long => convert Opcode.i2l
    | .float => convert Opcode.i2f
    | .double => convert Opcode.i2d
    | _ => none
  else match source, target with
    | .long, .float => convert Opcode.l2f
    | .long, .double => convert Opcode.l2d
    | .float, .double => convert Opcode.f2d
    | _, _ => none

/-- Method of the boxed class that gives the value back. -/
def unboxName : BaseType → MemberName
  | .byte => .byteValue
  | .char => .charValue
  | .double => .doubleValue
  | .float => .floatValue
  | .int => .intValue
  | .long => .longValue
  | .short => .shortValue
  | .boolean => .booleanValue

def box (b : BaseType) : Instruction :=
  .invoke .static ⟨b.boxed, .valueOf, ⟨[.base b], some (.object b.boxed)⟩⟩

def unbox (b : BaseType) : Instruction :=
  .invoke .virtual ⟨b.boxed, b.unboxName, ⟨[], some (.base b)⟩⟩

/-- Whether a box of the type may be used as an object of the class. -/
def boxesTo (b : BaseType) (c : ClassName) : Bool :=
  c = .object || c = b.boxed || (c = .number && b.isNumeric)

end BaseType

namespace ValueType

/-- Appends code that turns a value of one type on top of the stack into one of another, where there
is a conversion: widening, boxing, unboxing or a cast. -/
def coerceOnto (source target : ValueType) : InPlace Code Unit :=
  let mismatch : InPlace Code Unit := InPlace.fail (.typeMismatch (.inconvertible source target))
  if source = target then pure ()
  else match source, target with
  | .base source, .base target =>
    match source.widen? target with
    | some conversion => Code.emit conversion
    | none => mismatch
  | .base source, .ref (.object c) => do
    if !source.boxesTo c then mismatch
    Code.emit [source.box]
  | .ref (.object c), .base target => do
    if c ≠ target.boxed then Code.emit [.checkCast (.object target.boxed)]
    Code.emit [target.unbox]
  | .ref _, .ref target =>
    if target = .object .object then pure () else Code.emit [.checkCast target]
  | _, _ => mismatch

/-- Code that turns a value of one type on top of the stack into one of another. -/
def coerce (source target : ValueType) : Except WeaveError Code :=
  (source.coerceOnto target).finish []

/-- Push of the zero value of the type. -/
def pushZero (t : ValueType) : Instruction := .pushConstant (Constant.zero t.kind)

/-- Push of the zero value as an object, which is `null` for references. -/
def pushBoxedZero : ValueType → Code
  | .base b => [pushZero (.base b), b.box]
  | .ref _ => [.pushConstant .null]

end ValueType

/-- Push of the zero value of a result as an object, `null` for `void`. -/
def pushBoxedResult : Option ValueType → Code
  | some t => t.pushBoxedZero
  | none => [.pushConstant .null]

/-- Converts the value on top to the handler's parameter, calls the handler on it and converts the
result back. -/
def Handler.filter (h : Handler) (value parameter result : ValueType) :
    Except WeaveError Code := do
  let there ← value.coerce parameter
  let back ← result.coerce value
  pure (there ++ h.callOnTop parameter ++ back)

/-- Values of some types kept in local slots. -/
abbrev Spill := List (UInt16 × ValueType)

namespace Spill

/-- Takes the values off the stack, the last one first. -/
def store (s : Spill) : Code := s.reverse.map fun (slot, t) => .storeLocal slot t.kind

def load (s : Spill) : Code := s.map fun (slot, t) => .loadLocal slot t.kind

/-- Loads the values one by one, each converted to its target. -/
def loadAs : Spill → List ValueType → Except WeaveError Code
  | (slot, t) :: s, target :: targets => do
    let conversion ← t.coerce target
    let rest ← loadAs s targets
    pure (.loadLocal slot t.kind :: conversion ++ rest)
  | _, _ => .ok []

end Spill

end CodeWeaving
