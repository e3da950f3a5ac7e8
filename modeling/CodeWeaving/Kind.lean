/-! Kinds of values, as far as the operand stack and the local slots tell them apart. -/
namespace CodeWeaving

/-- All primitives below `int`, booleans included, are of kind `int`. -/
inductive ValueKind where
  | int
  | long
  | float
  | double
  | reference
  deriving DecidableEq, Repr

namespace ValueKind

/-- Slots a value fills, on the stack and among the locals alike. -/
def width : ValueKind → Nat
  | .long | .double => 2
  | .int | .float | .reference => 1

/-- Letter that starts a typed mnemonic such as `iload`. -/
def letter : ValueKind → Char
  | .int => 'i'
  | .long => 'l'
  | .float => 'f'
  | .double => 'd'
  | .reference => 'a'

/-- Name of the kind in layouts. -/
def title : ValueKind → String
  | .int => "Int"
  | .long => "Long"
  | .float => "Float"
  | .double => "Double"
  | .reference => "Reference"

/-- Slots that values side by side fill. -/
def totalWidth : List ValueKind → Nat
  | [] => 0
  | k :: kinds => k.width + totalWidth kinds

theorem width_pos (k : ValueKind) : 0 < k.width := by cases k <;> decide

theorem width_le_two (k : ValueKind) : k.width ≤ 2 := by cases k <;> decide

end ValueKind

end CodeWeaving
