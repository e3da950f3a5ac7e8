import CodeWeaving.Class.Method

/-! Classes: named, with fields and methods. -/
namespace CodeWeaving

structure Field where
  name : MemberName
  type : ValueType
  flags : FieldFlags
  deriving DecidableEq

def Field.isStatic (f : Field) : Bool := f.flags.has staticFlag

structure ClassDefinition where
  name : ClassName
  superName : ClassName
  fields : List Field
  methods : List Method
  /-- Whether weaving is over; it happens once in a class's life. -/
  woven : Bool
  deriving BEq, DecidableEq

namespace ClassDefinition

/-- A class of nothing but a name. -/
def ofName (name : ClassName) : ClassDefinition := ⟨name, .object, [], [], false⟩

def method? (c : ClassDefinition) (name : MemberName) (signature : Signature) : Option Method :=
  c.methods.find? fun m => m.name = name ∧ m.signature = signature

def addField (c : ClassDefinition) (f : Field) : Except ModelError ClassDefinition :=
  if c.fields.any (·.name = f.name) then .error (.duplicateField c.name f.name)
  else .ok { c with fields := c.fields ++ [f] }

def addMethod (c : ClassDefinition) (m : Method) : Except ModelError ClassDefinition :=
  match c.method? m.name m.signature with
  | some _ => .error (.duplicateMethod c.name m.identity)
  | none => .ok { c with methods := c.methods ++ [m] }

/-- The first element that clashes with one before it. -/
def clash? {α : Type} (clashes : α → α → Bool) (before : List α) : List α → Option α
  | [] => none
  | a :: rest => if before.any (clashes a) then some a else clash? clashes (before ++ [a]) rest

/-- The first clash between members; methods are looked at before fields. -/
def memberFault? (c : ClassDefinition) : Option ModelError :=
  match clash? (fun m n => n.name = m.name ∧ n.signature = m.signature) [] c.methods with
  | some m => some (.duplicateMethod c.name m.identity)
  | none => (clash? (fun f g => g.name = f.name) [] c.fields).map
      fun f => .duplicateField c.name f.name

/-- Methods with their bounds taken from their code, up to the first that has none. -/
def recomputeAll : List Method → List Method × Option ModelError
  | [] => ([], none)
  | m :: rest => match m.recomputeBounds with
    | (m, some e) => (m :: rest, some e)
    | (m, none) =>
      let (rest, e) := recomputeAll rest
      (m :: rest, e)

def recomputeBounds (c : ClassDefinition) : ClassDefinition × Option ModelError :=
  let (methods, e) := recomputeAll c.methods
  ({ c with methods }, e)

/-- A class as it must be before it is woven or holds handlers: members apart and bounds fresh. -/
def checked (c : ClassDefinition) : Except ModelError ClassDefinition :=
  match c.memberFault? with
  | some e => .error e
  | none => match c.recomputeBounds with
    | (_, some e) => .error e
    | (c, none) => .ok c

def markWoven (c : ClassDefinition) : ClassDefinition := { c with woven := true }

def listing (c : ClassDefinition) : String :=
  c.methods.foldl (fun text m => text ++ "\n" ++ m.listing)
    s!"class {c.name.text} extends {c.superName.text}\n"

end ClassDefinition

end CodeWeaving
