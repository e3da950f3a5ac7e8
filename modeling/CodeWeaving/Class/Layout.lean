import CodeWeaving.Kind
import CodeWeaving.Text.Quoted

/-! Values side by side in local slots. -/
namespace CodeWeaving

/-- Kinds of values with the slot each starts at. -/
abbrev SlotLayout := List (Nat × ValueKind)

namespace SlotLayout

/-- Every value starts where the one before it ends. -/
def ofKinds (first : Nat) : List ValueKind → SlotLayout
  | [] => []
  | k :: kinds => (first, k) :: ofKinds (first + k.width) kinds

/-- Slots taken up in all. -/
def size (l : SlotLayout) : Nat := ValueKind.totalWidth (l.map Prod.snd)

def text (l : SlotLayout) : String :=
  "[" ++ String.intercalate ", "
    (l.map fun (slot, k) => Text.quoted s!"#{slot} = {k.title}") ++ "]"

end SlotLayout

end CodeWeaving
