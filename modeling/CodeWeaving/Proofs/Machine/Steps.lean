import CodeWeaving.Proofs.Machine.Frame

/-! What instructions do to a frame, and what they ask of the surroundings: calls, field accesses,
new objects and everything else that a frame alone does not decide. -/
namespace CodeWeaving.Machine

variable {Ref : Type}

/-- What a frame asks of its surroundings, with the operands in their order, a receiver first. -/
inductive Request (Ref : Type) where
  | call (kind : InvokeKind) (method : MethodRef) (operands : List (Value Ref))
  | access (access : FieldAccess) (field : FieldRef) (operands : List (Value Ref))
  | allocate (cls : ClassName)
  | cast (type : RefType) (object : Value Ref)
  | text (s : String)
  | raw (instruction : RawInstruction) (operands : List (Slot Ref))

/-- The slots are those of one value of the kind, or none at all. -/
def Fits (k : Option ValueKind) (slots : List (Slot Ref)) : Prop :=
  match k with
  | none => slots = []
  | some k => ∃ v : Value Ref, v.kind = k ∧ slots = v.slots

/-- What the answer to a request may leave on the stack. -/
def Request.Admits : Request Ref → List (Slot Ref) → Prop
  | .call _ m _ => Fits m.signature.returnKind
  | .access .getField f _ | .access .getStatic f _ => Fits (some f.type.kind)
  | .access .putField _ _ | .access .putStatic _ _ => Fits none
  | .allocate _ | .cast _ _ | .text _ => Fits (some .reference)
  | .raw r _ => fun slots => slots.length = r.pushes.toNat

/-- What comes of an instruction in a frame. -/
inductive Act (Ref : Type) where
  /-- On to the next instruction. -/
  | go (f : Frame Ref)
  | jump (l : Label) (f : Frame Ref)
  | leave (result : Option (Value Ref))
  /-- The method ends by throwing. -/
  | raise
  /-- On to the next instruction with the answer on top of the stack. -/
  | ask (q : Request Ref) (f : Frame Ref)

/-- Kinds of the operands of a call, a receiver first. -/
def callKinds (kind : InvokeKind) (m : MethodRef) : List ValueKind :=
  (if kind.hasReceiver then [.reference] else []) ++ m.signature.parameters.map ValueType.kind

def accessKinds : FieldAccess → FieldRef → List ValueKind
  | .getField, _ => [.reference]
  | .putField, f => [.reference, f.type.kind]
  | .getStatic, _ => []
  | .putStatic, f => [f.type.kind]

/-- Kind of the value that a branch tests. -/
def tested? : Condition → Option ValueKind
  | .always => none
  | .ifNull | .ifNonNull => some .reference
  | .ifZero | .ifNonZero | .ifNegative | .ifNonNegative | .ifPositive | .ifNonPositive => some .int

/-- Whether a branch on the value is taken. -/
def passes : Condition → Value Ref → Bool
  | .ifNull, .reference r => r.isNone
  | .ifNonNull, .reference r => r.isSome
  | .ifZero, .int n => n == 0
  | .ifNonZero, .int n => n != 0
  | .ifNegative, .int n => n < 0
  | .ifNonNegative, .int n => 0 ≤ n
  | .ifPositive, .int n => 0 < n
  | .ifNonPositive, .int n => n ≤ 0
  | _, _ => false

/-- Source and target of the primitive conversions. -/
def widening? (opcode : UInt8) : Option (ValueKind × ValueKind) :=
  if opcode = Opcode.i2l then some (.int, .long)
  else if opcode = Opcode.i2f then some (.int, .float)
  else if opcode = Opcode.i2d then some (.int, .double)
  else if opcode = Opcode.l2f then some (.long, .float)
  else if opcode = Opcode.l2d then some (.long, .double)
  else if opcode = Opcode.f2d then some (.float, .double)
  else none

/-- The same number as a value of a wider kind. -/
def Value.widen : Value Ref → ValueKind → Value Ref
  | .int n, .long => .long n.toInt64
  | .int n, .float => .float n.toFloat32
  | .int n, .double => .double n.toFloat
  | .long n, .float => .float n.toFloat32
  | .long n, .double => .double n.toFloat
  | .float x, .double => .double x.toFloat
  | v, _ => v

/-- What an instruction pushes if it is the push of a literal; for a string that takes an object. -/
def Frame.pushConstant (f : Frame Ref) : Constant → Act Ref
  | .null => .go (f.push (.reference none))
  | .int n => .go (f.push (.int n))
  | .long n => .go (f.push (.long n))
  | .float x => .go (f.push (.float x))
  | .double x => .go (f.push (.double x))
  | .string s => .ask (.text s) f

/-- Of raw instructions `iinc`, literal pushes, conversions and `athrow` are known; any other one
takes its slots to the surroundings and leaves the locals alone. -/
def beginRaw (r : RawInstruction) (f : Frame Ref) : Option (Act Ref) :=
  if r.opcode = Opcode.iinc then do
    let slot ← r.operands[0]?
    let amount ← r.signedByte? 1
    match ← f.locals.load slot.toNat .int with
    | .int n =>
      pure (.go { f with locals := f.locals.store slot.toNat (.int (n + amount.toInt32)) })
    | _ => none
  else if let some c := (Instruction.raw r).literal? then some (f.pushConstant c)
  else if let some (source, target) := widening? r.opcode then do
    let (v, stack) ← take source f.stack
    pure (.go ({ f with stack }.push (v.widen target)))
  else if r.pops.toNat ≤ f.stack.length then
    if r.opcode = Opcode.athrow then some .raise
    else some (.ask (.raw r (f.stack.take r.pops.toNat))
      { f with stack := f.stack.drop r.pops.toNat })
  else none

/-- What an instruction does in a frame; nothing if an operand is missing or of another kind. -/
def begin : Instruction → Frame Ref → Option (Act Ref)
  | .pushConstant c, f => some (f.pushConstant c)
  | .loadLocal slot k, f => do
    let v ← f.locals.load slot.toNat k
    pure (.go (f.push v))
  | .storeLocal slot k, f => do
    let (v, stack) ← take k f.stack
    pure (.go ⟨stack, f.locals.store slot.toNat v⟩)
  | .invoke kind m, f => do
    let (operands, stack) ← takeAll (callKinds kind m) f.stack
    pure (.ask (.call kind m operands) { f with stack })
  | .field access field, f => do
    let (operands, stack) ← takeAll (accessKinds access field) f.stack
    pure (.ask (.access access field operands) { f with stack })
  | .new cls, f => some (.ask (.allocate cls) f)
  | .checkCast type, f => do
    let (v, stack) ← take .reference f.stack
    pure (.ask (.cast type v) { f with stack })
  | .dup, ⟨a :: stack, locals⟩ => some (.go ⟨a :: a :: stack, locals⟩)
  | .dupX1, ⟨a :: b :: stack, locals⟩ => some (.go ⟨a :: b :: a :: stack, locals⟩)
  | .dupX2, ⟨a :: b :: c :: stack, locals⟩ => some (.go ⟨a :: b :: c :: a :: stack, locals⟩)
  | .swap, ⟨a :: b :: stack, locals⟩ => some (.go ⟨b :: a :: stack, locals⟩)
  | .pop, ⟨_ :: stack, locals⟩ => some (.go ⟨stack, locals⟩)
  | .pop2, ⟨_ :: _ :: stack, locals⟩ => some (.go ⟨stack, locals⟩)
  | .dup, _ | .dupX1, _ | .dupX2, _ | .swap, _ | .pop, _ | .pop2, _ => none
  | .branch condition l, f =>
    match tested? condition with
    | none => some (.jump l f)
    | some k => do
      let (v, stack) ← take k f.stack
      pure (if passes condition v then .jump l { f with stack } else .go { f with stack })
  | .ret none, _ => some (.leave none)
  | .ret (some k), f => do
    let (v, _) ← take k f.stack
    pure (.leave (some v))
  | .label _, f => some (.go f)
  | .raw r, f => beginRaw r f

/-- What answers the requests of a frame, in a state of its own. -/
structure Surroundings (Ref : Type) where
  World : Type
  answer : Request Ref → StateT World Option (List (Slot Ref))
  admits : ∀ {q w reply w'}, answer q w = some (reply, w') → q.Admits reply

namespace Surroundings

variable (S : Surroundings Ref)

/-- One instruction that goes on to the next. -/
def execute (f : Frame Ref) (i : Instruction) : StateT S.World Option (Frame Ref) :=
  match begin i f with
  | some (.go g) => pure g
  | some (.ask q g) => do
    let reply ← S.answer q
    pure { g with stack := reply ++ g.stack }
  | _ => failure

/-- Code that is gone through from its first instruction to its last. -/
def exec (code : Code) (f : Frame Ref) : StateT S.World Option (Frame Ref) :=
  code.foldlM S.execute f

/-- Where a run of a method has got to. -/
inductive Config where
  | at (pc : Nat) (w : S.World) (f : Frame Ref)
  | returned (result : Option (Value Ref)) (w : S.World)
  | raised (w : S.World)

/-- The place that a branch to a label goes to. -/
def placeOf (code : Code) (l : Label) : Option Nat :=
  code.findIdx? fun i => i = .label l

/-- One step of a method; none if there is no such instruction, if it lacks an operand, or if the
surroundings give no answer. -/
def step (code : Code) (pc : Nat) (w : S.World) (f : Frame Ref) : Option S.Config := do
  let i ← code[pc]?
  match ← begin i f with
  | .go g => pure (.at (pc + 1) w g)
  | .jump l g => (placeOf code l).map fun p => .at p w g
  | .leave result => pure (.returned result w)
  | .raise => pure (.raised w)
  | .ask q g =>
    (S.answer q w).map fun (reply, w) => .at (pc + 1) w { g with stack := reply ++ g.stack }

/-- Calls have their results from a script, fields are zero, casts succeed, and objects are numbered
as they come. -/
def scripted (results : MethodRef → Value Nat) : Surroundings Nat where
  World := Nat
  answer q n := some (match q with
    | .call _ m _ => (pushed (m.signature.returnKind.map (results m).ofKind), n)
    | .access .getField f _ | .access .getStatic f _ => ((Value.zero f.type.kind).slots, n)
    | .access .putField _ _ | .access .putStatic _ _ => ([], n)
    | .allocate _ | .text _ => ((Value.reference (some n)).slots, n + 1)
    | .cast _ v => ((v.ofKind .reference).slots, n)
    | .raw r _ => (List.replicate r.pushes.toNat (.value (.int 0)), n))
  admits {q n reply n'} h := by
    obtain rfl := congrArg Prod.fst (Option.some.inj h)
    cases q with
    | call kind m operands =>
      simp only [Request.Admits]
      cases m.signature.returnKind with
      | none => rfl
      | some k => exact ⟨_, Value.kind_ofKind _ k, rfl⟩
    | access access f operands =>
      cases access with
      | getField | getStatic => exact ⟨_, Value.kind_zero _, rfl⟩
      | putField | putStatic => rfl
    | allocate | text => exact ⟨.reference (some n), rfl, rfl⟩
    | cast type v => exact ⟨_, Value.kind_ofKind v _, rfl⟩
    | raw r operands => exact List.length_replicate

end Surroundings

end CodeWeaving.Machine
