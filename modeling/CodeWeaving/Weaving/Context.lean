import CodeWeaving.Weaving.Coercion
import CodeWeaving.Weaving.Locate
import CodeWeaving.Weaving.Settings

/-! What the ways of weaving share. -/
namespace CodeWeaving

/-- What is known of a directive besides the method it is woven into. -/
structure Context where
  settings : Settings
  cls : ClassName
  directive : Directive
  handler : Handler

namespace Context

def note (cx : Context) (m : Method) (s : Step) : Traced Unit :=
  Traced.note (.step cx.cls m.identity cx.directive s)

/-- The sites of a point, of which there must be one. -/
def sites (d : Draft) (p : InjectionPoint) : Except WeaveError (List Site) := do
  let sites ← d.stream.locate p
  if sites.isEmpty then .error (.noMatch (.point p.selector)) else .ok sites

/-- Parameter and result of the handler, which must take one value and return one. -/
def filterTypes (cx : Context) (filtered : Filtered) : Except WeaveError (ValueType × ValueType) :=
  match cx.handler.filter? with
  | some types => .ok types
  | none => .error (.typeMismatch (.notAFilter filtered))

end Context

end CodeWeaving
