import CodeWeaving.Weaving.Error

/-! Fresh local slots and labels for woven code. -/
namespace CodeWeaving

/-- Hands out slots above all that a method uses, and none twice. -/
structure SlotAllocator where
  next : Nat
  deriving DecidableEq

namespace SlotAllocator

def ofMethod (m : Method) : SlotAllocator := ⟨m.localsInUse⟩

/-- The first of as many slots as a value of the kind fills; all must lie below the last. -/
def allocate (a : SlotAllocator) (k : ValueKind) : Except WeaveError (UInt16 × SlotAllocator) :=
  if a.next + k.width ≤ 65535 then .ok (UInt16.ofNat a.next, ⟨a.next + k.width⟩)
  else .error .tooManyLocals

def allocateAll (a : SlotAllocator) :
    List ValueKind → Except WeaveError (List UInt16 × SlotAllocator)
  | [] => .ok ([], a)
  | k :: kinds => do
    let (slot, a) ← a.allocate k
    let (slots, a) ← a.allocateAll kinds
    pure (slot :: slots, a)

/-- Locals that the slots handed out ask for, in sixteen bits. -/
def maxLocals (a : SlotAllocator) : UInt16 := UInt16.ofNat a.next

/-- The method with room for the slots handed out. -/
def commit (a : SlotAllocator) (m : Method) : Method :=
  { m with maxLocals := max m.maxLocals a.maxLocals }

end SlotAllocator

/-- What is still unused in a method. -/
structure Supply where
  slots : SlotAllocator
  label : Label

namespace Supply

def ofMethod (m : Method) : Supply := ⟨SlotAllocator.ofMethod m, m.freeLabel⟩

def slot (s : Supply) (k : ValueKind) : Except WeaveError (UInt16 × Supply) :=
  (s.slots.allocate k).map fun (slot, slots) => (slot, { s with slots })

def slotsFor (s : Supply) (kinds : List ValueKind) : Except WeaveError (List UInt16 × Supply) :=
  (s.slots.allocateAll kinds).map fun (taken, slots) => (taken, { s with slots })

def withNextLabel (s : Supply) : Supply := { s with label := s.label.next }

end Supply

end CodeWeaving
