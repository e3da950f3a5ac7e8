import CodeWeaving.Weaving.InPlace
import CodeWeaving.Weaving.Slots

/-! Plans of edits, made before a method is touched and then carried out in one go. -/
namespace CodeWeaving

/-- A method whose code is open to edits. -/
structure Draft where
  method : Method
  stream : CodeStream
  agrees : stream.instructions = method.code

namespace Draft

def ofMethod (m : Method) : Draft :=
  ⟨m, CodeStream.ofList 0 m.code, CodeStream.instructions_ofList 0 m.code⟩

def withStream (d : Draft) (s : CodeStream) : Draft :=
  ⟨{ d.method with code := s.instructions }, s, rfl⟩

@[simp] theorem withStream_stream (d : Draft) : d.withStream d.stream = d := by
  obtain ⟨m, s, agrees⟩ := d
  simp [withStream, agrees]

/-- The draft with other bounds on stack and locals. -/
def withBounds (d : Draft) (maxStack maxLocals : UInt16) : Draft :=
  ⟨{ d.method with maxStack, maxLocals }, d.stream, d.agrees⟩

end Draft

/-- An instruction to weave at, with its anchor. -/
structure Site where
  anchor : Anchor
  instruction : Instruction

inductive Edit where
  | insertBefore (anchor : Anchor) (code : Code)
  | insertAfter (anchor : Anchor) (code : Code)
  | replace (anchor : Anchor) (code : Code)

namespace Edit

def anchor : Edit → Anchor
  | .insertBefore a _ | .insertAfter a _ | .replace a _ => a

def code : Edit → Code
  | .insertBefore _ code | .insertAfter _ code | .replace _ code => code

/-- Code on one side of an instruction. -/
def insert (placement : Placement) (anchor : Anchor) (code : Code) : Edit :=
  match placement with
  | .before => .insertBefore anchor code
  | .after => .insertAfter anchor code

def apply (s : CodeStream) : Edit → Except AnchorError CodeStream
  | .insertBefore a code => s.insertBefore a code
  | .insertAfter a code => s.insertAfter a code
  | .replace a code => s.replace a code

end Edit

/-- What a directive will do to a method. -/
inductive Plan where
  /-- Edits at instructions of the method, using some fresh slots. -/
  | edits (edits : List Edit) (slots : SlotAllocator)
  /-- Other code with bounds of its own. -/
  | newBody (code : Code) (maxStack maxLocals : UInt16)

namespace Plan

def anchorFault (e : AnchorError) : WeaveError := .invariant (.anchor e)

/-- Most that any one of the edits' code raises the stack. -/
def peak (es : List Edit) : Nat := es.foldl (fun n e => max n e.code.peak) 0

/-- The edit made in the code of a draft. -/
def edit (e : Edit) (d : Draft) : Except WeaveError Draft :=
  ((e.apply d.stream).mapError anchorFault).map d.withStream

/-- Bounds for new code of which none raises the stack by more than a height. -/
def raise (height : Nat) (slots : SlotAllocator) (d : Draft) : Except WeaveError Draft :=
  let depth := d.method.maxStack.toNat + height
  match boundOf? depth with
  | none => .error (.invariant (.model (.maxStackOverflow depth)))
  | some maxStack => .ok (d.withBounds maxStack (slots.commit d.method).maxLocals)

/-- Carries the plan out and gives the number of its points. All anchors are looked at before the
first edit. The stack bound grows by the highest peak of the new code, wherever that code goes. -/
def apply : Plan → InPlace Draft Nat
  | .edits es slots => do
    es.forM fun e => InPlace.require fun d => (d.stream.position e.anchor).mapError anchorFault
    es.forM fun e => InPlace.update (edit e)
    InPlace.update (raise (peak es) slots)
    pure es.length
  | .newBody code maxStack maxLocals => do
    InPlace.update fun d =>
      .ok ((d.withStream (CodeStream.ofList d.stream.id code)).withBounds maxStack maxLocals)
    pure 1

section

variable {α : Type}

/-- One edit for each site, the supply handed on from one to the next. -/
def editSites (edit : Supply → α → Traced (Edit × Supply)) (supply : Supply) :
    List α → Traced (List Edit × Supply)
  | [] => pure ([], supply)
  | site :: sites => do
    let (e, supply) ← edit supply site
    let (es, supply) ← editSites edit supply sites
    pure (e :: es, supply)

/-- The plan of one edit for each site of a method. -/
def ofSites (m : Method) (sites : List α) (edit : Supply → α → Traced (Edit × Supply)) :
    Traced Plan := do
  let (es, supply) ← editSites edit (Supply.ofMethod m) sites
  pure (.edits es supply.slots)

end

end Plan

end CodeWeaving
