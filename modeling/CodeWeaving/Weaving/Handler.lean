import CodeWeaving.Weaving.Directive

/-! Handlers, and the code that calls them. -/
namespace CodeWeaving

/-- Where handler methods are looked up. -/
abbrev HandlerProvider := HandlerRef → Option Method

/-- Handler classes, one of each name. -/
structure HandlerLibrary where
  classes : List ClassDefinition

namespace HandlerLibrary

/-- A class takes the place of an earlier one of its name. -/
def add (l : HandlerLibrary) (c : ClassDefinition) : HandlerLibrary :=
  ⟨l.classes.filter (·.name ≠ c.name) ++ [c]⟩

def ofList (classes : List ClassDefinition) : HandlerLibrary := classes.foldl add ⟨[]⟩

def size (l : HandlerLibrary) : Nat := l.classes.length

def provider (l : HandlerLibrary) : HandlerProvider := fun h => do
  let c ← l.classes.find? (·.name = h.owner)
  c.method? h.name h.signature

end HandlerLibrary

/-- A handler with the method it names. -/
structure Handler where
  reference : HandlerRef
  body : Method

namespace Handler

def isStatic (h : Handler) : Bool := h.body.isStatic

def parameters (h : Handler) : List ValueType := h.reference.signature.parameters

def returns (h : Handler) : Option ValueType := h.reference.signature.returns

/-- A new instance to call the handler on, or nothing for a static one. -/
def instantiate (h : Handler) : Code :=
  if h.isStatic then []
  else [.new h.reference.owner, .dup,
    .invoke .special ⟨h.reference.owner, .init, ⟨[], none⟩⟩]

/-- The call, with instance and arguments on the stack. -/
def call (h : Handler) : Instruction :=
  .invoke (if h.isStatic then .static else .virtual) h.reference.method

/-- Moves a value over another one of a type, which ends up on top. -/
def tuckUnder (top : ValueType) : Code := if top.width = 2 then [.dupX2, .pop] else [.swap]

/-- Calls the handler on the value on top of the stack; a new instance goes below that value. -/
def callOnTop (h : Handler) (top : ValueType) : Code :=
  (if h.isStatic then [] else h.instantiate ++ tuckUnder top) ++ [h.call]

/-- Drops what the handler returns. -/
def dropResult (h : Handler) : Code := (h.returns.map fun t => Instruction.drop t.kind).toList

/-- Parameter and result of a handler that takes one value and returns one. -/
def filter? (h : Handler) : Option (ValueType × ValueType) :=
  match h.parameters, h.returns with
  | [parameter], some result => some (parameter, result)
  | _, _ => none

end Handler

end CodeWeaving
