import CodeWeaving.Proofs.Machine.Steps
import CodeWeaving.Proofs.Weaving.FreshSlots

/-! Kinds of the values on the stack and in the local slots, and what instructions make of them. -/
namespace CodeWeaving

/-- What is known of a local slot: the kind of its value, or that a wide value ends there. -/
inductive SlotKind where
  | value (kind : ValueKind)
  | upper
  deriving DecidableEq

/-- What is known of the local slots; of those that paths leave different, nothing. -/
abbrev SlotKinds := Nat → Option SlotKind

namespace SlotKinds

variable {l l' : SlotKinds} {slot n : Nat} {k : ValueKind}

def store (l : SlotKinds) (slot : Nat) (k : ValueKind) : SlotKinds := fun n =>
  if n = slot then some (.value k)
  else if n = slot + 1 ∧ k.width = 2 then some .upper
  else l n

/-- A value of the kind has its slots from a number on. -/
def Holds (l : SlotKinds) (slot : Nat) (k : ValueKind) : Prop :=
  l slot = some (.value k) ∧ (k.width = 2 → l (slot + 1) = some .upper)

instance decidableHolds : Decidable (l.Holds slot k) := inferInstanceAs (Decidable (_ ∧ (_ → _)))

/-- Nothing is known but what is known in the other, too. -/
def Below (l l' : SlotKinds) : Prop := ∀ n x, l n = some x → l' n = some x

/-- What is known of the slots below a number. -/
def cut (n : Nat) (l : SlotKinds) : SlotKinds := fun k => if k < n then l k else none

theorem Below.refl : l.Below l := fun _ _ h => h

theorem Below.cut (h : l.Below l') : (l.cut n).Below (l'.cut n) := by
  intro k x hk
  unfold SlotKinds.cut at hk ⊢
  split at hk
  · rw [if_pos ‹_›]
    exact h k x hk
  · cases hk

theorem holds_store : (l.store slot k).Holds slot k := by
  refine ⟨?_, ?_⟩
  · simp [store]
  · intro hwide
    simp [store, hwide]

theorem store_of_outside (h : n < slot ∨ slot + k.width ≤ n) : l.store slot k n = l n := by
  have hpos := k.width_pos
  rw [store, if_neg (by omega), if_neg (by omega)]

theorem store_of_holds (h : l.Holds slot k) : l.store slot k = l := by
  funext n
  unfold store
  split
  · rename_i heq
    rw [heq, h.1]
  · split
    · rename_i hupper
      rw [hupper.1, h.2 hupper.2]
    · rfl

theorem cut_store (h : slot + k.width ≤ n) : (l.store slot k).cut n = (l.cut n).store slot k := by
  have hpos := k.width_pos
  funext j
  unfold cut store
  by_cases hslot : j = slot
  · rw [if_pos hslot, if_pos hslot, if_pos (by omega)]
  · rw [if_neg hslot, if_neg hslot]
    by_cases hupper : j = slot + 1 ∧ k.width = 2
    · rw [if_pos hupper, if_pos hupper, if_pos (by omega)]
    · rw [if_neg hupper, if_neg hupper]

theorem Holds.cut (h : l.Holds slot k) (hn : slot + k.width ≤ n) : (l.cut n).Holds slot k := by
  have hpos := k.width_pos
  refine ⟨?_, ?_⟩
  · rw [SlotKinds.cut, if_pos (by omega)]
    exact h.1
  · intro hwide
    rw [SlotKinds.cut, if_pos (by omega)]
    exact h.2 hwide

theorem Holds.store {slot' : Nat} {k' : ValueKind} (h : l.Holds slot k)
    (hout : slot + k.width ≤ slot') : (l.store slot' k').Holds slot k := by
  have hpos := k.width_pos
  refine ⟨?_, ?_⟩
  · rw [store_of_outside (.inl (by omega))]
    exact h.1
  · intro hwide
    rw [store_of_outside (.inl (by omega))]
    exact h.2 hwide

/-- A store to slots of which nothing is known loses nothing. -/
theorem below_store (h : ∀ n, slot ≤ n → l n = none) : l.Below (l.store slot k) := by
  intro n x hn
  rw [store_of_outside]
  · exact hn
  · by_contra hinside
    rw [h n (by omega)] at hn
    cases hn

/-- The slots of values side by side. -/
def ofLayout (layout : SlotLayout) : SlotKinds :=
  layout.foldl (fun l x => l.store x.1 x.2) fun _ => none

theorem foldl_store_of_le {first : Nat} {kinds : List ValueKind}
    (hn : first + ValueKind.totalWidth kinds ≤ n) :
    (SlotLayout.ofKinds first kinds).foldl (fun l x => l.store x.1 x.2) l n = l n := by
  induction kinds generalizing first l with
  | nil => rfl
  | cons k kinds ih =>
    simp only [ValueKind.totalWidth] at hn
    have hout : first + k.width ≤ n := by omega
    rw [SlotLayout.ofKinds, List.foldl_cons, ih (by omega), store_of_outside (.inr hout)]

end SlotKinds

/-- What is known of a frame; the kinds on the stack with the top first. -/
structure KindFrame where
  stack : List ValueKind
  locals : SlotKinds

namespace KindFrame

/-- Less may be known of the locals than in the other frame, but the stack is the same. -/
structure Below (f g : KindFrame) : Prop where
  stack : f.stack = g.stack
  locals : f.locals.Below g.locals

def cut (n : Nat) (f : KindFrame) : KindFrame := { f with locals := f.locals.cut n }

variable {f g : KindFrame} {n : Nat}

theorem Below.refl : f.Below f := ⟨rfl, .refl⟩

theorem Below.trans {h : KindFrame} (hf : f.Below g) (hg : g.Below h) : f.Below h :=
  ⟨hf.stack.trans hg.stack, fun n x hx => hg.locals n x (hf.locals n x hx)⟩

theorem Below.cut (h : f.Below g) : (f.cut n).Below (g.cut n) := ⟨h.stack, h.locals.cut⟩

end KindFrame

/-- Takes values of some kinds off a stack, the last one first. -/
def takeKinds (kinds stack : List ValueKind) : Option (List ValueKind) :=
  if kinds.reverse <+: stack then some (stack.drop kinds.length) else none

theorem takeKinds_eq_some {kinds stack rest : List ValueKind} :
    takeKinds kinds stack = some rest ↔ stack = kinds.reverse ++ rest := by
  unfold takeKinds
  constructor
  · intro h
    split at h
    · rename_i hprefix
      cases h
      obtain ⟨rest, rfl⟩ := hprefix
      rw [List.drop_left' (List.length_reverse)]
    · cases h
  · rintro rfl
    rw [if_pos (List.prefix_append _ _), List.drop_left' (List.length_reverse)]

namespace Instruction

/-- Kinds of the values that an instruction takes and of those that it leaves, the last one on top;
none for instructions that move values of any kind. -/
def kinds? : Instruction → Option (List ValueKind × List ValueKind)
  | .pushConstant c => some ([], [c.kind])
  | .loadLocal _ k => some ([], [k])
  | .storeLocal _ k => some ([k], [])
  | .invoke kind m => some (Machine.callKinds kind m, m.signature.returnKind.toList)
  | .field access f => some (Machine.accessKinds access f,
      match access with
      | .getField | .getStatic => [f.type.kind]
      | .putField | .putStatic => [])
  | .new _ => some ([], [.reference])
  | .checkCast _ => some ([.reference], [.reference])
  | .branch condition _ => some ((Machine.tested? condition).toList, [])
  | .ret k => some (k.toList, [])
  | .label _ => some ([], [])
  | .raw r => (Machine.widening? r.opcode).map fun kinds => ([kinds.1], [kinds.2])
  | .dup | .dupX1 | .dupX2 | .swap | .pop | .pop2 => none

/-- The stack after an instruction; none if operands are missing or of other kinds. No instruction
tears a wide value apart. -/
def stackAfter? : Instruction → List ValueKind → Option (List ValueKind)
  | .dup, a :: stack => if a.width = 1 then some (a :: a :: stack) else none
  | .dupX1, a :: b :: stack =>
    if a.width = 1 ∧ b.width = 1 then some (a :: b :: a :: stack) else none
  | .dupX2, a :: b :: stack =>
    if a.width = 1 ∧ b.width = 2 then some (a :: b :: a :: stack)
    else match stack with
      | c :: stack =>
        if a.width = 1 ∧ b.width = 1 ∧ c.width = 1 then some (a :: b :: c :: a :: stack) else none
      | [] => none
  | .swap, a :: b :: stack => if a.width = 1 ∧ b.width = 1 then some (b :: a :: stack) else none
  | .pop, a :: stack => if a.width = 1 then some stack else none
  | .pop2, a :: stack =>
    if a.width = 2 then some stack
    else match stack with
      | b :: stack => if b.width = 1 then some stack else none
      | [] => none
  | i, stack => do
    let (taken, left) ← i.kinds?
    let rest ← takeKinds taken stack
    pure (left.reverse ++ rest)

/-- The locals after an instruction; none if a value loaded is not there or of another kind. -/
def localsAfter? : Instruction → SlotKinds → Option SlotKinds
  | .loadLocal slot k, l => if l.Holds slot.toNat k then some l else none
  | .storeLocal slot k, l => some (l.store slot.toNat k)
  | _, l => some l

/-- The frame after an instruction, if it finds in the frame before it all that it names. -/
def kindsAfter? (i : Instruction) (f : KindFrame) : Option KindFrame := do
  let stack ← i.stackAfter? f.stack
  let locals ← i.localsAfter? f.locals
  pure ⟨stack, locals⟩

variable {i : Instruction} {f g : KindFrame} {l l' : SlotKinds} {stack rest : List ValueKind}
  {taken left : List ValueKind} {n : Nat}

theorem kindsAfter?_eq_some : i.kindsAfter? f = some g ↔
    i.stackAfter? f.stack = some g.stack ∧ i.localsAfter? f.locals = some g.locals := by
  simp only [kindsAfter?, Option.bind_eq_bind, Option.bind_eq_some_iff, Option.pure_def,
    Option.some.injEq]
  constructor
  · rintro ⟨stack, hstack, l, hl, rfl⟩
    exact ⟨hstack, hl⟩
  · rintro ⟨hstack, hl⟩
    exact ⟨_, hstack, _, hl, rfl⟩

theorem stackAfter?_of_kinds? (h : i.kinds? = some (taken, left)) :
    i.stackAfter? (taken.reverse ++ rest) = some (left.reverse ++ rest) := by
  have htake : takeKinds taken (taken.reverse ++ rest) = some rest := takeKinds_eq_some.2 rfl
  unfold stackAfter?
  split <;> first | cases h | skip
  rw [h]
  simp [htake]

theorem stack_of_stackAfter? (h : i.kinds? = some (taken, left))
    (hstack : i.stackAfter? stack = some rest) :
    ∃ below, stack = taken.reverse ++ below ∧ rest = left.reverse ++ below := by
  unfold stackAfter? at hstack
  split at hstack <;> first | cases h | skip
  simp only [h, Option.bind_eq_bind, Option.bind_some, Option.bind_eq_some_iff, Option.pure_def,
    Option.some.injEq] at hstack
  obtain ⟨below, hbelow, rfl⟩ := hstack
  exact ⟨below, takeKinds_eq_some.1 hbelow, rfl⟩

/-- What an instruction does to the slots below a number depends on no others. -/
theorem localsAfter?_cut (h : i.localsAfter? l = some l') (hn : i.localsNeeded ≤ n) :
    i.localsAfter? (l.cut n) = some (l'.cut n) := by
  unfold localsAfter? at h ⊢
  split at h
  · split at h
    · rename_i hholds
      cases h
      rw [if_pos (hholds.cut hn)]
    · cases h
  · cases h
    rw [SlotKinds.cut_store hn]
  · cases h
    rfl

theorem kindsAfter?_cut (h : i.kindsAfter? f = some g) (hn : i.localsNeeded ≤ n) :
    i.kindsAfter? (f.cut n) = some (g.cut n) := by
  obtain ⟨hstack, hlocals⟩ := kindsAfter?_eq_some.1 h
  exact kindsAfter?_eq_some.2 ⟨hstack, localsAfter?_cut hlocals hn⟩

end Instruction

end CodeWeaving
