import CodeWeaving.Weaving.Context

/-! Methods that take over a handler's code. -/
namespace CodeWeaving.Overwrite

/-- Calls and field accesses on one class, moved to another. -/
def retarget (source target : ClassName) : Instruction → Instruction
  | .invoke kind m =>
    .invoke kind (if m.owner = source then { m with owner := target } else m)
  | .field access f =>
    .field access (if f.owner = source then { f with owner := target } else f)
  | i => i

/-- The handler must be callable just as the method is; its members become the class's own. -/
def plan (cx : Context) (m : Method) : Traced Plan := do
  let body := cx.handler.body
  let reference := cx.handler.reference
  if body.signature ≠ m.signature ∨ body.isStatic ≠ m.isStatic then
    Traced.fail (.typeMismatch (.notInterchangeable reference m.identity))
  if body.code.isEmpty then Traced.fail (.emptyHandler reference)
  cx.note m (.overwriting m.code.length body.code.length)
  pure (.newBody (body.code.map (retarget reference.owner cx.cls)) body.maxStack
    (max body.maxLocals (UInt16.ofNat m.parameterLength)))

end CodeWeaving.Overwrite
