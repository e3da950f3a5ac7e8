import CodeWeaving.Descriptor.Basic

/-! Instructions of a method body: what they are, take from the stack and leave on it. -/
namespace CodeWeaving

/-- Literals that can be pushed. `==` compares floats as numbers, `=` bit by bit. -/
inductive Constant where
  | null
  | int (value : Int32)
  | long (value : Int64)
  | float (value : Float32)
  | double (value : Float)
  | string (value : String)
  deriving BEq, DecidableEq

namespace Constant

def kind : Constant → ValueKind
  | .int _ => .int
  | .long _ => .long
  | .float _ => .float
  | .double _ => .double
  | .null | .string _ => .reference

/-- Static type of a literal; `null` counts as an object. -/
def type : Constant → ValueType
  | .int _ => .int
  | .long _ => .long
  | .float _ => .float
  | .double _ => .double
  | .string _ => .object .string
  | .null => .object .object

def zero : ValueKind → Constant
  | .int => .int 0
  | .long => .long 0
  | .float => .float 0
  | .double => .double 0
  | .reference => .null

theorem kind_zero (k : ValueKind) : (zero k).kind = k := by cases k <;> rfl

theorem kind_type (c : Constant) : c.type.kind = c.kind := by cases c <;> rfl

end Constant

/-- Place in a method body that branches can name. -/
structure Label where
  id : UInt32
  deriving DecidableEq

namespace Label

/-- No label has a greater number. -/
def last : Label := ⟨4294967295⟩

/-- The label with the next number. After the last one the sum overflows: a program built without
checks goes on with the number that it wraps around to. -/
def next (l : Label) : Label := ⟨l.id + 1⟩

/-- The label with the next number in a program whose sums are checked, which ends where one
overflows. -/
def next? (l : Label) : Option Label := if l = last then none else some l.next

end Label

/-- A method as a call names it. -/
structure MethodRef where
  owner : ClassName
  name : MemberName
  signature : Signature
  deriving DecidableEq

/-- A field as an access names it. -/
structure FieldRef where
  owner : ClassName
  name : MemberName
  type : ValueType
  deriving DecidableEq

/-- Text that call patterns are matched against: `a/B.run(I)V`. -/
def MethodRef.identity (m : MethodRef) : String :=
  m.owner.text ++ "." ++ m.name.text ++ m.signature.render

/-- Text that field patterns are matched against: `a/B.count:I`. -/
def FieldRef.identity (f : FieldRef) : String :=
  f.owner.text ++ "." ++ f.name.text ++ ":" ++ f.type.render

inductive InvokeKind where
  | static
  | virtual
  | special
  | interface
  deriving DecidableEq

def InvokeKind.hasReceiver : InvokeKind → Bool
  | .static => false
  | _ => true

inductive FieldAccess where
  | getField
  | putField
  | getStatic
  | putStatic
  deriving DecidableEq

def FieldAccess.isStatic : FieldAccess → Bool
  | .getStatic | .putStatic => true
  | .getField | .putField => false

/-- What a branch tests on top of the stack; `always` tests nothing. -/
inductive Condition where
  | always
  | ifZero
  | ifNonZero
  | ifNegative
  | ifNonNegative
  | ifPositive
  | ifNonPositive
  | ifNull
  | ifNonNull
  deriving DecidableEq

namespace Opcode

def bipush : UInt8 := 0x10
def sipush : UInt8 := 0x11
def iinc : UInt8 := 0x84
def i2l : UInt8 := 0x85
def i2f : UInt8 := 0x86
def i2d : UInt8 := 0x87
def l2f : UInt8 := 0x89
def l2d : UInt8 := 0x8a
def f2d : UInt8 := 0x8d
def athrow : UInt8 := 0xbf

end Opcode

/-- An instruction of which only the declared stack effect is known. -/
structure RawInstruction where
  opcode : UInt8
  operands : List UInt8
  pops : UInt8
  pushes : UInt8
  deriving DecidableEq

namespace RawInstruction

def signedByte? (r : RawInstruction) (i : Nat) : Option Int8 := r.operands[i]?.map UInt8.toInt8

/-- Two operand bytes as one number, the high byte first. -/
def unsignedShort? (r : RawInstruction) (i : Nat) : Option UInt16 := do
  let high ← r.operands[i]?
  let low ← r.operands[i + 1]?
  pure (high.toUInt16 <<< 8 ||| low.toUInt16)

def signedShort? (r : RawInstruction) (i : Nat) : Option Int16 :=
  (r.unsignedShort? i).map UInt16.toInt16

end RawInstruction

inductive Instruction where
  | pushConstant (value : Constant)
  | loadLocal (slot : UInt16) (kind : ValueKind)
  | storeLocal (slot : UInt16) (kind : ValueKind)
  | invoke (kind : InvokeKind) (method : MethodRef)
  | field (access : FieldAccess) (field : FieldRef)
  | new (cls : ClassName)
  | checkCast (type : RefType)
  | dup
  | dupX1
  | dupX2
  | swap
  | pop
  | pop2
  | branch (condition : Condition) (target : Label)
  | ret (kind : Option ValueKind)
  | label (place : Label)
  | raw (instruction : RawInstruction)
  deriving BEq, DecidableEq

abbrev Code := List Instruction

/-- Slots an instruction takes off the stack and then puts on it. -/
structure StackEffect where
  pops : Nat
  pushes : Nat
  deriving DecidableEq

namespace Instruction

def effect : Instruction → StackEffect
  | .pushConstant c => ⟨0, c.kind.width⟩
  | .loadLocal _ k => ⟨0, k.width⟩
  | .storeLocal _ k => ⟨k.width, 0⟩
  | .invoke kind m => ⟨m.signature.parameterLength kind.hasReceiver, m.signature.returnWidth⟩
  | .field .getField f => ⟨1, f.type.width⟩
  | .field .putField f => ⟨1 + f.type.width, 0⟩
  | .field .getStatic f => ⟨0, f.type.width⟩
  | .field .putStatic f => ⟨f.type.width, 0⟩
  | .new _ => ⟨0, 1⟩
  | .checkCast _ => ⟨1, 1⟩
  | .dup => ⟨1, 2⟩
  | .dupX1 => ⟨2, 3⟩
  | .dupX2 => ⟨3, 4⟩
  | .swap => ⟨2, 2⟩
  | .pop => ⟨1, 0⟩
  | .pop2 => ⟨2, 0⟩
  | .branch .always _ => ⟨0, 0⟩
  | .branch _ _ => ⟨1, 0⟩
  | .ret kind => ⟨(kind.map ValueKind.width).getD 0, 0⟩
  | .label _ => ⟨0, 0⟩
  | .raw r => ⟨r.pops.toNat, r.pushes.toNat⟩

/-- Whether control never goes on to the next instruction. -/
def isTerminal : Instruction → Bool
  | .ret _ => true
  | .branch .always _ => true
  | .raw r => r.opcode == Opcode.athrow
  | _ => false

def target? : Instruction → Option Label
  | .branch _ l => some l
  | _ => none

def isReturn : Instruction → Bool
  | .ret _ => true
  | _ => false

/-- The label an instruction places or branches to. -/
def label? : Instruction → Option Label
  | .label l | .branch _ l => some l
  | _ => none

/-- The instruction that drops a value of a kind. -/
def drop (k : ValueKind) : Instruction := if k.width = 2 then .pop2 else .pop

/-- The literal an instruction pushes, in its short encodings too. -/
def literal? : Instruction → Option Constant
  | .pushConstant c => some c
  | .raw r =>
    if r.opcode = Opcode.bipush then (r.signedByte? 0).map fun b => .int b.toInt32
    else if r.opcode = Opcode.sipush then (r.signedShort? 0).map fun s => .int s.toInt32
    else none
  | _ => none

/-- Slots that must exist among the locals for the instruction to make sense. -/
def localsNeeded : Instruction → Nat
  | .loadLocal slot k | .storeLocal slot k => slot.toNat + k.width
  | .raw r =>
    if r.opcode = Opcode.iinc then (r.operands.head?.map fun slot => slot.toNat + 1).getD 0 else 0
  | _ => 0

end Instruction

end CodeWeaving
