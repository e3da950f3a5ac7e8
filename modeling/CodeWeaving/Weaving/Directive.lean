import CodeWeaving.Class.Basic
import CodeWeaving.Text.Occurrence

/-! Directives: what is to be woven into which methods, and where. -/
namespace CodeWeaving

/-- The methods of a class that a directive is for; without a signature, all of a name. -/
structure MethodSelector where
  name : MemberName
  signature : Option Signature
  deriving DecidableEq

def MethodSelector.accepts (s : MethodSelector) (m : Method) : Bool :=
  s.name = m.name && s.signature.all (fun g => g = m.signature)

def MethodSelector.text (s : MethodSelector) : String :=
  s.name.text ++ (s.signature.map Signature.render).getD ""

inductive MatchMode where
  /-- Equal, or either one contains the other. -/
  | permissive
  | exact
  /-- The identity contains the pattern. -/
  | contains
  deriving DecidableEq

/-- A text to compare with the identities of calls, field accesses and allocations. -/
structure TargetPattern where
  text : String
  mode : MatchMode
  deriving DecidableEq

namespace TargetPattern

def permissive (text : String) : TargetPattern := ⟨text, .permissive⟩

def exact (text : String) : TargetPattern := ⟨text, .exact⟩

def accepts (p : TargetPattern) (identity : String) : Bool :=
  match p.mode with
  | .exact => identity = p.text
  | .contains => Text.contains identity p.text
  | .permissive => Text.contains identity p.text || Text.contains p.text identity

end TargetPattern

inductive LocalAccess where
  | store
  | load
  deriving DecidableEq

/-- Which instructions of a body are meant. An ordinal counts from zero among those that match, and
-1 stands for all of them. -/
inductive Selector where
  /-- The first instruction. -/
  | head
  | returns
  | calls (target : TargetPattern) (ordinal : Int32)
  | fieldAccesses (target : TargetPattern) (ordinal : Int32)
  | allocations (target : TargetPattern) (ordinal : Int32)
  /-- Stores or loads, perhaps only of one slot or kind. -/
  | locals (access : LocalAccess) (slot : Option UInt16) (kind : Option ValueKind)
    (ordinal : Int32)
  deriving DecidableEq

def Selector.text : Selector → String
  | .head => "HEAD"
  | .returns => "RETURN"
  | .calls target ordinal => s!"INVOKE '{target.text}' #{ordinal.toInt}"
  | .fieldAccesses target ordinal => s!"FIELD '{target.text}' #{ordinal.toInt}"
  | .allocations target ordinal => s!"NEW '{target.text}' #{ordinal.toInt}"
  | .locals access slot _ ordinal =>
    (match access with | .store => "STORE" | .load => "LOAD") ++
      ((slot.map fun n => s!" {n.toNat}").getD "") ++ s!" #{ordinal.toInt}"

inductive Placement where
  | before
  | after
  deriving DecidableEq

def Placement.title : Placement → String
  | .before => "Before"
  | .after => "After"

/-- Matches of a selector, each moved along the code by `shift`, and the side of them to use. -/
structure InjectionPoint where
  selector : Selector
  shift : Int32
  placement : Placement
  deriving DecidableEq

namespace InjectionPoint

def ofSelector (selector : Selector) : InjectionPoint := ⟨selector, 0, .before⟩

def withShift (p : InjectionPoint) (shift : Int32) : InjectionPoint := { p with shift }

def withPlacement (p : InjectionPoint) (placement : Placement) : InjectionPoint :=
  { p with placement }

end InjectionPoint

/-- Pushes of a literal; the ordinal is as for selectors. -/
structure ConstantMatch where
  value : Constant
  ordinal : Int32
  deriving BEq, DecidableEq

def ConstantMatch.text (c : ConstantMatch) : String :=
  s!"constant {c.value.title} #{c.ordinal.toInt}"

/-- What a directive does. -/
inductive Action where
  /-- Calls the handler; a cancellable call may end the method. -/
  | inject (point : InjectionPoint) (cancellable : Bool)
  /-- Puts a call of the handler in place of a call or field access. -/
  | redirect (point : InjectionPoint)
  /-- Passes a literal through the handler. -/
  | modifyConstant (constant : ConstantMatch)
  /-- Passes an argument of a call through the handler; without an index, the one that fits. -/
  | modifyArgument (point : InjectionPoint) (index : Option UInt64)
  /-- Lets the handler change all arguments of a call at once. -/
  | modifyArguments (point : InjectionPoint)
  /-- Passes a local through the handler; the slot is for points that are no store or load. -/
  | modifyVariable (point : InjectionPoint) (slot : Option UInt16)
  /-- Puts the handler's code in place of the method's. -/
  | overwrite
  deriving BEq, DecidableEq

def Action.title : Action → String
  | .inject .. => "Inject"
  | .redirect .. => "Redirect"
  | .modifyConstant .. => "ModifyConstant"
  | .modifyArgument .. => "ModifyArg"
  | .modifyArguments .. => "ModifyArgs"
  | .modifyVariable .. => "ModifyVariable"
  | .overwrite => "Overwrite"

/-- The method that a directive weaves in, by name. -/
structure HandlerRef where
  owner : ClassName
  name : MemberName
  signature : Signature
  deriving DecidableEq

def HandlerRef.text (h : HandlerRef) : String :=
  h.owner.text ++ "." ++ h.name.text ++ h.signature.render

def HandlerRef.method (h : HandlerRef) : MethodRef := ⟨h.owner, h.name, h.signature⟩

structure Directive where
  targetClass : ClassName
  target : MethodSelector
  handler : HandlerRef
  /-- Higher priorities are woven first. -/
  priority : Int32
  /-- Whether finding nothing to do counts as a failure. -/
  required : Bool
  action : Action
  deriving BEq, DecidableEq

def Directive.text (d : Directive) : String :=
  d.action.title ++ " " ++ d.targetClass.text ++ "." ++ d.target.text ++ " -> " ++ d.handler.text

/-- Directives in weaving order: by falling priority, and as listed where that is equal. -/
def inWeavingOrder {α : Type} (priority : α → Int32) (ds : List α) : List α :=
  ds.mergeSort fun a b => priority b ≤ priority a

end CodeWeaving
