import CodeWeaving.Weaving.Context

/-! Calls of a handler at points of a method, which may end the method early. -/
namespace CodeWeaving.Inject

/-- What a parameter of the handler is given. -/
inductive Supplied where
  | token (cls : ClassName)
  /-- The next argument of the method, converted to a type. -/
  | argument (type : ValueType)

def supplied (settings : Settings) : ValueType → Supplied
  | .ref (.object c) => if settings.isToken c then .token c else .argument (.object c)
  | t => .argument t

def tokens (params : List Supplied) : List ClassName :=
  params.filterMap fun
    | .token c => some c
    | .argument _ => none

/-- What the handler's parameters are given: at most one token and no more arguments than the
method has. -/
def classify (cx : Context) (m : Method) : Except WeaveError (List Supplied) :=
  let params := cx.handler.parameters.map (supplied cx.settings)
  let count := (tokens params).length
  if 1 < count then .error (.typeMismatch .severalTokens)
  else if m.signature.parameters.length < params.length - count then
    .error (.typeMismatch (.tooManyArguments m.identity))
  else .ok params

def isReturnable (cx : Context) (token : ClassName) : Bool := token = cx.settings.returnableToken

/-- A new token; one that carries a result starts with the zero value of the method's. -/
def newToken (cx : Context) (m : Method) (token : ClassName) (cancellable : Bool) : Code :=
  let returnable := isReturnable cx token
  [.new token, .dup, .pushConstant (.string (cx.cls.text ++ "." ++ m.identity)),
    .pushConstant (.int (if cancellable then 1 else 0))] ++
  (if returnable then pushBoxedResult m.signature.returns else []) ++
  [.invoke .special ⟨token, .init,
    ⟨[.object .string, .boolean] ++ (if returnable then [.object .object] else []), none⟩⟩]

/-- Loads what the parameters are given, counting the arguments from `index` on. -/
def loadSupplied (m : Method) (tokenSlot : UInt16) (index : Nat) :
    List Supplied → Except WeaveError Code
  | [] => .ok []
  | .token _ :: params => do
    let rest ← loadSupplied m tokenSlot index params
    pure (.loadLocal tokenSlot .reference :: rest)
  | .argument type :: params =>
    match m.argumentSlot? index with
    | none => .error (.typeMismatch (.tooManyArguments m.identity))
    | some (slot, t) => do
      let conversion ← t.coerce type
      let rest ← loadSupplied m tokenSlot (index + 1) params
      pure (.loadLocal slot t.kind :: conversion ++ rest)

/-- Returns from the method, with the token's result if it carries one and else a zero value. -/
def earlyReturn (cx : Context) (m : Method) (token : ClassName) (slot : UInt16) :
    Except WeaveError Code :=
  match m.signature.returns with
  | none => .ok [.ret none]
  | some type =>
    if isReturnable cx token then do
      let conversion ← (ValueType.object .object).coerce type
      pure ([.loadLocal slot .reference,
        .invoke .virtual ⟨token, .getReturnValue, ⟨[], some (.object .object)⟩⟩] ++
        conversion ++ [.ret (some type.kind)])
    else .ok [type.pushZero, .ret (some type.kind)]

/-- Returns early if the token was cancelled. -/
def cancellation (cx : Context) (m : Method) (token : ClassName) (slot : UInt16) (skip : Label) :
    Except WeaveError Code := do
  let leave ← earlyReturn cx m token slot
  pure ([.loadLocal slot .reference,
    .invoke .virtual ⟨token, .isCancelled, ⟨[], some .boolean⟩⟩, .branch .ifZero skip] ++
    leave ++ [.label skip])

/-- The handler's call with everything before and after it, for a handler without a token. -/
def plainCall (cx : Context) (m : Method) (params : List Supplied) (supply : Supply) :
    Except WeaveError (Code × Supply) := do
  let arguments ← loadSupplied m 0 0 params
  pure (cx.handler.instantiate ++ arguments ++ [cx.handler.call] ++ cx.handler.dropResult, supply)

/-- The handler's call with everything before and after it, for a handler with a token. -/
def tokenCall (cx : Context) (m : Method) (cancellable : Bool) (params : List Supplied)
    (token : ClassName) (supply : Supply) : Except WeaveError (Code × Supply) := do
  let (slot, supply) ← supply.slot .reference
  let arguments ← loadSupplied m slot 0 params
  let call := newToken cx m token cancellable ++ [.storeLocal slot .reference] ++
    cx.handler.instantiate ++ arguments ++ [cx.handler.call] ++ cx.handler.dropResult
  if cancellable then
    let leave ← cancellation cx m token slot supply.label
    pure (call ++ leave, supply.withNextLabel)
  else pure (call, supply)

/-- Whether an early return follows the call, which takes a label. -/
def canCancel (cancellable : Bool) (params : List Supplied) : Bool :=
  cancellable && !(tokens params).isEmpty

def codeFor (cx : Context) (m : Method) (cancellable : Bool) (params : List Supplied)
    (supply : Supply) : Except WeaveError (Code × Supply) :=
  match (tokens params).head? with
  | none => plainCall cx m params supply
  | some token => tokenCall cx m cancellable params token supply

/-- At the start and at returns there is only one side. -/
def placement (p : InjectionPoint) : Placement :=
  match p.selector with
  | .head | .returns => .before
  | _ => p.placement

def editAt (cx : Context) (m : Method) (p : InjectionPoint) (cancellable : Bool)
    (params : List Supplied) (supply : Supply) (site : Site) : Traced (Edit × Supply) := do
  if placement p = .after ∧ site.instruction.isReturn = true then
    Traced.fail (.unsupportedSelector .afterReturn)
  cx.note m (.injecting (placement p) site.instruction)
  let (code, left) ← Traced.ofExcept (codeFor cx m cancellable params supply)
  -- with a label the one after it is found, too, whether or not that is ever taken
  Traced.noteOverflow (canCancel cancellable params && supply.label.next?.isNone)
  pure (.insert (placement p) site.anchor code, left)

/-- A constructor may be cancelled only where it returns. -/
def plan (cx : Context) (d : Draft) (p : InjectionPoint) (cancellable : Bool) : Traced Plan := do
  let sites ← Traced.ofExcept (Context.sites d p)
  if cancellable ∧ d.method.isConstructor ∧ p.selector ≠ .returns then
    Traced.fail (.unsupportedSelector .cancelledConstructor)
  let params ← Traced.ofExcept (classify cx d.method)
  if cancellable ∧ (tokens params).isEmpty then cx.note d.method .cannotCancel
  Traced.noteOverflow d.method.freeLabel?.isNone
  Plan.ofSites d.method sites (editAt cx d.method p cancellable params)

end CodeWeaving.Inject
