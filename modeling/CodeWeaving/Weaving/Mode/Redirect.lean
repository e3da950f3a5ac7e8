import CodeWeaving.Weaving.Context

/-! Calls of a handler in place of calls and field accesses. -/
namespace CodeWeaving.Redirect

/-- What a call or field access takes off the stack and leaves on it. -/
structure Exchange where
  consumed : List ValueType
  produced : Option ValueType

def exchange (i : Instruction) : Except WeaveError Exchange :=
  match i with
  | .invoke kind m =>
    if m.name = .init then .error (.unsupportedSelector .constructorCall)
    else
      let receiver := if kind.hasReceiver then [ValueType.object m.owner] else []
      .ok ⟨receiver ++ m.signature.parameters, m.signature.returns⟩
  | .field .getField f => .ok ⟨[.object f.owner], some f.type⟩
  | .field .putField f => .ok ⟨[.object f.owner, f.type], none⟩
  | .field .getStatic f => .ok ⟨[], some f.type⟩
  | .field .putStatic f => .ok ⟨[f.type], none⟩
  | i => .error (.unsupportedSelector (.notASite i))

/-- Turns the handler's result into what the replaced instruction leaves. -/
def settleResult (cx : Context) (i : Instruction) (produced : Option ValueType) :
    Except WeaveError Code :=
  match cx.handler.returns, produced with
  | none, none => .ok []
  | some returned, none => .ok [Instruction.drop returned.kind]
  | none, some _ => .error (.typeMismatch (.noResult i))
  | some returned, some type => returned.coerce type

/-- The operands go to fresh slots, so that a new instance can come below them. -/
def replacement (cx : Context) (i : Instruction) (x : Exchange) (supply : Supply) :
    Except WeaveError (Code × Supply) := do
  let (slots, supply) ← supply.slotsFor (x.consumed.map ValueType.kind)
  let spill : Spill := slots.zip x.consumed
  let arguments ← spill.loadAs cx.handler.parameters
  let result ← settleResult cx i x.produced
  pure (spill.store ++ cx.handler.instantiate ++ arguments ++ [cx.handler.call] ++ result, supply)

def editAt (cx : Context) (m : Method) (supply : Supply) (site : Site) :
    Traced (Edit × Supply) := do
  let x ← Traced.ofExcept (exchange site.instruction)
  let operands := x.consumed.length
  let parameters := cx.handler.parameters.length
  if operands ≠ parameters then
    Traced.fail (.typeMismatch (.operandCount site.instruction operands parameters))
  cx.note m (.replacing site.instruction)
  let (code, supply) ← Traced.ofExcept (replacement cx site.instruction x supply)
  pure (.replace site.anchor code, supply)

def isRedirectable : Selector → Bool
  | .calls .. | .fieldAccesses .. => true
  | _ => false

def plan (cx : Context) (d : Draft) (p : InjectionPoint) : Traced Plan := do
  if !isRedirectable p.selector then
    Traced.fail (.unsupportedSelector (.notRedirectable p.selector))
  let sites ← Traced.ofExcept (Context.sites d p)
  Plan.ofSites d.method sites (editAt cx d.method)

end CodeWeaving.Redirect
