import CodeWeaving.Kind
import CodeWeaving.Name

/-! Types of values and signatures of methods, with their written form. -/
namespace CodeWeaving

inductive BaseType where
  | byte
  | char
  | double
  | float
  | int
  | long
  | short
  | boolean
  deriving DecidableEq, Repr

/-- Types of objects and arrays; an array type counts its dimensions beyond the first. -/
inductive RefType where
  | object (cls : ClassName)
  | objectArray (extra : Nat) (cls : ClassName)
  | primitiveArray (extra : Nat) (element : BaseType)
  deriving DecidableEq

inductive ValueType where
  | base (type : BaseType)
  | ref (type : RefType)
  deriving DecidableEq

/-- Parameter types and result type of a method; `none` stands for `void`. -/
structure Signature where
  parameters : List ValueType
  returns : Option ValueType
  deriving DecidableEq

namespace BaseType

def letter : BaseType → Char
  | .byte => 'B'
  | .char => 'C'
  | .double => 'D'
  | .float => 'F'
  | .int => 'I'
  | .long => 'J'
  | .short => 'S'
  | .boolean => 'Z'

def ofLetter? : Char → Option BaseType
  | 'B' => some .byte
  | 'C' => some .char
  | 'D' => some .double
  | 'F' => some .float
  | 'I' => some .int
  | 'J' => some .long
  | 'S' => some .short
  | 'Z' => some .boolean
  | _ => none

theorem ofLetter?_letter (b : BaseType) : ofLetter? b.letter = some b := by cases b <;> rfl

theorem ofLetter?_eq_some {c : Char} {b : BaseType} (h : ofLetter? c = some b) :
    c = b.letter := by
  unfold ofLetter? at h
  split at h <;> cases h <;> rfl

def kind : BaseType → ValueKind
  | .byte | .char | .int | .short | .boolean => .int
  | .float => .float
  | .long => .long
  | .double => .double

def width (b : BaseType) : Nat := b.kind.width

/-- Class whose instances wrap one value of the type. -/
def boxed : BaseType → ClassName
  | .byte => .byte
  | .char => .character
  | .double => .double
  | .float => .float
  | .int => .integer
  | .long => .long
  | .short => .short
  | .boolean => .boolean

/-- The types whose boxes are numbers: all but characters and booleans. -/
def isNumeric : BaseType → Bool
  | .char | .boolean => false
  | _ => true

def chars (b : BaseType) : List Char := [b.letter]

def render (b : BaseType) : String := String.ofList b.chars

end BaseType

namespace ClassName

/-- The name as an object type: `Lcom/example/Foo;`. -/
def chars (c : ClassName) : List Char := 'L' :: c.text.toList ++ [';']

def render (c : ClassName) : String := String.ofList c.chars

end ClassName

namespace RefType

def chars : RefType → List Char
  | .object c => c.chars
  | .objectArray extra c => List.replicate (extra + 1) '[' ++ c.chars
  | .primitiveArray extra b => List.replicate (extra + 1) '[' ++ b.chars

def render (r : RefType) : String := String.ofList r.chars

end RefType

namespace ValueType

@[match_pattern] def int : ValueType := .base .int
def long : ValueType := .base .long
def float : ValueType := .base .float
def double : ValueType := .base .double
def boolean : ValueType := .base .boolean
def object (c : ClassName) : ValueType := .ref (.object c)

def kind : ValueType → ValueKind
  | .base b => b.kind
  | .ref _ => .reference

def width (t : ValueType) : Nat := t.kind.width

def isReference : ValueType → Bool
  | .base _ => false
  | .ref _ => true

def chars : ValueType → List Char
  | .base b => b.chars
  | .ref r => r.chars

def render (t : ValueType) : String := String.ofList t.chars

/-- The type assumed of a local of which only the kind is known. -/
def ofKind : ValueKind → ValueType
  | .int => int
  | .long => long
  | .float => float
  | .double => double
  | .reference => object .object

theorem kind_ofKind (k : ValueKind) : (ofKind k).kind = k := by cases k <;> rfl

end ValueType

namespace Signature

/-- Slots of the parameters, with one more for a receiver. -/
def parameterLength (s : Signature) (receiver : Bool) : Nat :=
  (if receiver then 1 else 0) + ValueKind.totalWidth (s.parameters.map ValueType.kind)

def returnWidth (s : Signature) : Nat := (s.returns.map ValueType.width).getD 0

def returnKind (s : Signature) : Option ValueKind := s.returns.map ValueType.kind

def returnChars (s : Signature) : List Char := (s.returns.map ValueType.chars).getD ['V']

def chars (s : Signature) : List Char :=
  '(' :: s.parameters.flatMap ValueType.chars ++ ')' :: s.returnChars

def render (s : Signature) : String := String.ofList s.chars

end Signature

end CodeWeaving
