import CodeWeaving.Weaving.Context

/-! Arguments of calls that pass through a handler, one of them or all at once. -/
namespace CodeWeaving

/-- A call to weave at. -/
structure CallSite where
  anchor : Anchor
  call : MethodRef

namespace CallSite

def ofSite (s : Site) : Except WeaveError CallSite :=
  match s.instruction with
  | .invoke _ m => .ok ⟨s.anchor, m⟩
  | i => .error (.unsupportedSelector (.notACall i))

def selectsCalls : Selector → Bool
  | .calls .. => true
  | _ => false

/-- The calls a point stands for, of which there must be one and nothing else. -/
def locate (d : Draft) (p : InjectionPoint) : Except WeaveError (List CallSite) :=
  if selectsCalls p.selector then do
    let sites ← Context.sites d p
    sites.mapM ofSite
  else .error (.unsupportedSelector (.notOnCalls p.selector))

end CallSite

namespace ModifyArgument

/-- The only argument of the parameter's very type. -/
def inferIndex? (arguments : List ValueType) (parameter : ValueType) : Option Nat :=
  match (arguments.zipIdx.filter fun (t, _) => t = parameter) with
  | [(_, i)] => some i
  | _ => none

def chooseIndex (call : MethodRef) (index : Option UInt64) (parameter : ValueType) :
    Except WeaveError Nat :=
  match index with
  | some i =>
    if i.toNat < call.signature.parameters.length then .ok i.toNat
    else .error (.typeMismatch (.noArgument call i))
  | none =>
    match inferIndex? call.signature.parameters parameter with
    | some i => .ok i
    | none => .error (.typeMismatch (.unclearArgument call))

/-- Only the arguments above the one to change are moved to slots. -/
def codeFor (cx : Context) (parameter result modified : ValueType) (above : List ValueType)
    (supply : Supply) : Except WeaveError (Code × Supply) := do
  let (slots, supply) ← supply.slotsFor (above.map ValueType.kind)
  let spill : Spill := slots.zip above
  let code ← cx.handler.filter modified parameter result
  pure (spill.store ++ code ++ spill.load, supply)

def editAt (cx : Context) (m : Method) (index : Option UInt64) (parameter result : ValueType)
    (supply : Supply) (site : CallSite) : Traced (Edit × Supply) := do
  let i ← Traced.ofExcept (chooseIndex site.call index parameter)
  cx.note m (.modifyingArgument i site.call)
  let arguments := site.call.signature.parameters
  let (code, supply) ← Traced.ofExcept
    (codeFor cx parameter result (arguments[i]?.getD parameter) (arguments.drop (i + 1)) supply)
  pure (.insertBefore site.anchor code, supply)

def plan (cx : Context) (d : Draft) (p : InjectionPoint) (index : Option UInt64) :
    Traced Plan := do
  let sites ← Traced.ofExcept (CallSite.locate d p)
  let (parameter, result) ← Traced.ofExcept (cx.filterTypes .argument)
  Plan.ofSites d.method sites (editAt cx d.method index parameter result)

end ModifyArgument

namespace ModifyArguments

def callView (view : ClassName) (kind : InvokeKind) (name : MemberName)
    (parameters : List ValueType) (returns : Option ValueType) : Instruction :=
  .invoke kind ⟨view, name, ⟨parameters, returns⟩⟩

/-- A new view with room for a number of arguments. -/
def newView (view : ClassName) (count : Nat) : Code :=
  [.new view, .dup, .pushConstant (.int (Int32.ofNat count)),
    callView view .special .init [.int] none]

/-- Puts values from slots into the view, at rising places. -/
def fill (view : ClassName) (viewSlot : UInt16) (place : Nat) : Spill → Except WeaveError Code
  | [] => .ok []
  | (slot, t) :: spill => do
    let conversion ← t.coerce (.object .object)
    let rest ← fill view viewSlot (place + 1) spill
    pure ([.loadLocal viewSlot .reference, .pushConstant (.int (Int32.ofNat place)),
      .loadLocal slot t.kind] ++ conversion ++
      callView view .virtual .set [.int, .object .object] none :: rest)

/-- Takes values of some types out of the view, from rising places. -/
def empty (view : ClassName) (viewSlot : UInt16) (place : Nat) :
    List ValueType → Except WeaveError Code
  | [] => .ok []
  | t :: types => do
    let conversion ← (ValueType.object .object).coerce t
    let rest ← empty view viewSlot (place + 1) types
    pure ([.loadLocal viewSlot .reference, .pushConstant (.int (Int32.ofNat place)),
      callView view .virtual .get [.int] (some (.object .object))] ++ conversion ++ rest)

/-- The arguments go into a view, the handler is called on it, and they come back out. -/
def codeFor (cx : Context) (arguments : List ValueType) (supply : Supply) :
    Except WeaveError (Code × Supply) := do
  let view := cx.settings.argumentView
  let (slots, supply) ← supply.slotsFor (arguments.map ValueType.kind)
  let spill : Spill := slots.zip arguments
  let (viewSlot, supply) ← supply.slot .reference
  let filling ← fill view viewSlot 0 spill
  let emptying ← empty view viewSlot 0 arguments
  pure (spill.store ++ newView view arguments.length ++ [.storeLocal viewSlot .reference] ++
    filling ++ cx.handler.instantiate ++ [.loadLocal viewSlot .reference, cx.handler.call] ++
    cx.handler.dropResult ++ emptying, supply)

def editAt (cx : Context) (m : Method) (supply : Supply) (site : CallSite) :
    Traced (Edit × Supply) := do
  let arguments := site.call.signature.parameters
  cx.note m (.modifyingArguments arguments.length site.call)
  let (code, supply) ← Traced.ofExcept (codeFor cx arguments supply)
  pure (.insertBefore site.anchor code, supply)

def plan (cx : Context) (d : Draft) (p : InjectionPoint) : Traced Plan := do
  if cx.handler.parameters ≠ [.object cx.settings.argumentView] then
    Traced.fail (.typeMismatch (.notAViewHandler cx.settings.argumentView))
  let sites ← Traced.ofExcept (CallSite.locate d p)
  Plan.ofSites d.method sites (editAt cx d.method)

end ModifyArguments

end CodeWeaving
