import CodeWeaving.Class.Flags
import CodeWeaving.Class.Layout
import CodeWeaving.Code.Depth

/-! Methods: code with a signature and with bounds on its stack and locals. -/
namespace CodeWeaving

structure Method where
  name : MemberName
  signature : Signature
  flags : MethodFlags
  maxStack : UInt16
  maxLocals : UInt16
  code : Code
  deriving BEq, DecidableEq

/-- Why a class or one of its methods is not as it should be. -/
inductive ModelError where
  | duplicateMethod (cls : ClassName) (identity : String)
  | duplicateField (cls : ClassName) (name : MemberName)
  | analysis (error : AnalysisError)
  | maxStackOverflow (depth : Nat)
  | maxLocalsOverflow (locals : Nat)
  deriving DecidableEq

def ModelError.message : ModelError → String
  | .duplicateMethod cls identity => s!"method {identity} is already declared on {cls.text}"
  | .duplicateField cls name => s!"field {name.text} is already declared on {cls.text}"
  | .analysis error => "invalid code: " ++ error.message
  | .maxStackOverflow depth => s!"max stack {depth} does not fit in u16"
  | .maxLocalsOverflow locals => s!"max locals {locals} does not fit in u16"

/-- A number as a bound on stack or locals, if it is not too large for one. -/
def boundOf? (n : Nat) : Option UInt16 := if n < 65536 then some (UInt16.ofNat n) else none

namespace Method

def isStatic (m : Method) : Bool := m.flags.has staticFlag

def isConstructor (m : Method) : Bool := m.name = MemberName.init

/-- Name and signature, which together tell the methods of a class apart. -/
def identity (m : Method) : String := m.name.text ++ m.signature.render

/-- Slots of the parameters, the receiver included. -/
def parameterLength (m : Method) : Nat := m.signature.parameterLength !m.isStatic

def parameterKinds (m : Method) : List ValueKind :=
  (if m.isStatic then [] else [.reference]) ++ m.signature.parameters.map ValueType.kind

/-- Where the parameters are on entry, the receiver included. -/
def parameterLayout (m : Method) : SlotLayout := SlotLayout.ofKinds 0 m.parameterKinds

/-- Slot and type of a declared parameter; slot numbers have sixteen bits. -/
def argumentSlot? (m : Method) (index : Nat) : Option (UInt16 × ValueType) := do
  let type ← m.signature.parameters[index]?
  let (slot, _) ← m.parameterLayout[if m.isStatic then index else index + 1]?
  pure (UInt16.ofNat slot, type)

/-- Slots that code and parameters take up, even if `maxLocals` says less. -/
def localsInUse (m : Method) : Nat := max m.maxLocals.toNat (m.code.localsNeeded m.parameterLength)

def freeLabel (m : Method) : Label := m.code.freeLabel

def freeLabel? (m : Method) : Option Label := m.code.freeLabel?

def returnWidth (m : Method) : Nat := m.signature.returnWidth

def withStackBound (m : Method) : Except ModelError Method :=
  match m.code.maxStack with
  | .error e => .error (.analysis e)
  | .ok depth => match boundOf? depth with
    | some bound => .ok { m with maxStack := bound }
    | none => .error (.maxStackOverflow depth)

def withLocalsBound (m : Method) : Except ModelError Method :=
  let locals := m.code.localsNeeded m.parameterLength
  match boundOf? locals with
  | some bound => .ok { m with maxLocals := bound }
  | none => .error (.maxLocalsOverflow locals)

/-- The method with its bounds taken from its code. An error comes with what was done before it. -/
def recomputeBounds (m : Method) : Method × Option ModelError :=
  match m.withStackBound with
  | .error e => (m, some e)
  | .ok stacked => match stacked.withLocalsBound with
    | .error e => (stacked, some e)
    | .ok bounded => (bounded, none)

/-- The method with its bounds taken from its code, if it has any. -/
def bounded (m : Method) : Except ModelError Method := do
  let stacked ← m.withStackBound
  stacked.withLocalsBound

def listing (m : Method) : String :=
  m.code.foldl (fun text i => text ++ i.listingLine)
    s!"{m.identity} // max_stack = {m.maxStack.toNat}, max_locals = {m.maxLocals.toNat}\n"

end Method

end CodeWeaving
