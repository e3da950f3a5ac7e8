import CodeWeaving.Weaving.Context

/-! Literals and locals that pass through a handler. -/
namespace CodeWeaving

namespace ModifyConstant

def editAt (cx : Context) (m : Method) (literal parameter result : ValueType) (supply : Supply)
    (site : Site) : Traced (Edit × Supply) := do
  cx.note m (.modifying site.instruction)
  let code ← Traced.ofExcept (cx.handler.filter literal parameter result)
  pure (.insertAfter site.anchor code, supply)

/-- Each matching literal is filtered right after its push. -/
def plan (cx : Context) (d : Draft) (c : ConstantMatch) : Traced Plan := do
  let sites ← Traced.ofExcept (d.stream.locateConstant c cx.settings.floatEpsilon)
  if sites.isEmpty then Traced.fail (.noMatch (.constant c))
  let (parameter, result) ← Traced.ofExcept (cx.filterTypes .constant)
  Plan.ofSites d.method sites (editAt cx d.method c.value.type parameter result)

end ModifyConstant

namespace ModifyVariable

/-- The type of a local of a kind: that of the parameter if both are of kind `int`. -/
def localType (k : ValueKind) (parameter : ValueType) : ValueType :=
  if k = .int ∧ parameter.kind = .int then parameter else .ofKind k

def filter (cx : Context) (k : ValueKind) (parameter result : ValueType) :
    Except WeaveError Code :=
  cx.handler.filter (localType k parameter) parameter result

/-- Selected locals must be of the parameter's kind, unless a kind was given. -/
def narrowed (p : InjectionPoint) (parameter : ValueType) : InjectionPoint :=
  match p.selector with
  | .locals access slot kind ordinal =>
    { p with selector := .locals access slot (some (kind.getD parameter.kind)) ordinal }
  | _ => p

def selectsLocals : Selector → Bool
  | .locals .. => true
  | _ => false

/-- Reads a slot, filters what it holds and writes it back. -/
def editSlot (cx : Context) (m : Method) (p : InjectionPoint) (slot : Option UInt16)
    (parameter result : ValueType) (site : Site) : Except WeaveError Edit :=
  match slot with
  | none => .error (.unsupportedSelector (.noSlot site.instruction))
  | some slot =>
    let k := parameter.kind
    if m.localsInUse < slot.toNat + k.width then
      .error (.unsupportedSelector (.slotOutOfRange slot m.identity))
    else do
      let code ← filter cx k parameter result
      if p.placement = .after ∧ site.instruction.isReturn = true then
        .error (.unsupportedSelector .variableAfterReturn)
      else
        .ok (.insert p.placement site.anchor
          (.loadLocal slot k :: code ++ [.storeLocal slot k]))

/-- A selected store is filtered on the way in, a selected load on the way out; at other places the
given slot is filtered. -/
def editFor (cx : Context) (m : Method) (p : InjectionPoint) (slot : Option UInt16)
    (parameter result : ValueType) (site : Site) : Except WeaveError Edit :=
  match selectsLocals p.selector, site.instruction with
  | true, .storeLocal _ k =>
    (filter cx k parameter result).map fun code => .insertBefore site.anchor code
  | true, .loadLocal _ k =>
    (filter cx k parameter result).map fun code => .insertAfter site.anchor code
  | _, _ => editSlot cx m p slot parameter result site

def editAt (cx : Context) (m : Method) (p : InjectionPoint) (slot : Option UInt16)
    (parameter result : ValueType) (supply : Supply) (site : Site) : Traced (Edit × Supply) := do
  cx.note m (.modifying site.instruction)
  let e ← Traced.ofExcept (editFor cx m p slot parameter result site)
  pure (e, supply)

def plan (cx : Context) (d : Draft) (p : InjectionPoint) (slot : Option UInt16) :
    Traced Plan := do
  let (parameter, result) ← Traced.ofExcept (cx.filterTypes .variable)
  let point := narrowed p parameter
  let sites ← Traced.ofExcept (Context.sites d point)
  Plan.ofSites d.method sites (editAt cx d.method point slot parameter result)

end ModifyVariable

end CodeWeaving
