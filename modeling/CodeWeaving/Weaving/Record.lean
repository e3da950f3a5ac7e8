import CodeWeaving.Descriptor.Parser
import CodeWeaving.Weaving.Registry
import CodeWeaving.Weaving.Settings

/-! Directives as they are written down, with names and descriptors still unread. -/
namespace CodeWeaving

inductive Mode where
  | inject
  | redirect
  | modifyConstant
  | modifyArgument
  | modifyArguments
  | modifyVariable
  | overwrite
  deriving DecidableEq

def Mode.title : Mode → String
  | .inject => "Inject"
  | .redirect => "Redirect"
  | .modifyConstant => "ModifyConstant"
  | .modifyArgument => "ModifyArg"
  | .modifyArguments => "ModifyArgs"
  | .modifyVariable => "ModifyVariable"
  | .overwrite => "Overwrite"

inductive Keyword where
  | head
  | tail
  | return_
  | invoke
  | field
  | new
  | store
  | load
  deriving DecidableEq

def Keyword.title : Keyword → String
  | .head => "Head"
  | .tail => "Tail"
  | .return_ => "Return"
  | .invoke => "Invoke"
  | .field => "Field"
  | .new => "New"
  | .store => "Store"
  | .load => "Load"

structure SelectorRecord where
  keyword : Keyword
  targetPattern : Option String
  ordinal : Option Int32
  shift : Option Int32
  placement : Option Placement
  mode : Option MatchMode
  slot : Option UInt16
  kind : Option ValueKind
  deriving DecidableEq

structure TargetRecord where
  name : String
  descriptor : Option String
  deriving DecidableEq

structure HandlerRecord where
  owner : String
  name : String
  descriptor : String
  deriving DecidableEq

structure DirectiveRecord where
  mode : Mode
  targetClass : String
  target : TargetRecord
  handler : HandlerRecord
  priority : Option Int32
  required : Bool
  selector : Option SelectorRecord
  cancellable : Bool
  argumentIndex : Option UInt64
  constant : Option Constant
  deriving BEq, DecidableEq

/-- Why a record is no directive. -/
inductive RecordError where
  | noSelector (mode : Mode)
  | noPattern (keyword : Keyword)
  | noConstant
  | noSlot
  | badName (error : NameError)
  | badDescriptor (text : String) (error : DescriptorError)
  deriving DecidableEq

def RecordError.message : RecordError → String
  | .noSelector mode => s!"malformed directive: {mode.title} directives need a selector"
  | .noPattern keyword => s!"malformed directive: {keyword.title} needs a target pattern"
  | .noConstant => "malformed directive: ModifyConstant directives need a constant match"
  | .noSlot =>
    "malformed directive: ModifyVariable directives need a slot unless they select a STORE or LOAD"
  | .badName error => "malformed directive: " ++ error.message
  | .badDescriptor text error =>
    s!"malformed directive: bad descriptor '{text}': {error.message}"

namespace SelectorRecord

def pattern (r : SelectorRecord) : Except RecordError TargetPattern :=
  match r.targetPattern with
  | some text => .ok ⟨text, r.mode.getD .permissive⟩
  | none => .error (.noPattern r.keyword)

def selector (r : SelectorRecord) : Except RecordError Selector :=
  let ordinal := r.ordinal.getD (-1)
  match r.keyword with
  | .head => .ok .head
  | .tail | .return_ => .ok .returns
  | .invoke => r.pattern.map fun target => .calls target ordinal
  | .field => r.pattern.map fun target => .fieldAccesses target ordinal
  | .new => r.pattern.map fun target => .allocations target ordinal
  | .store => .ok (.locals .store r.slot r.kind ordinal)
  | .load => .ok (.locals .load r.slot r.kind ordinal)

def point (r : SelectorRecord) : Except RecordError InjectionPoint :=
  r.selector.map fun selector => ⟨selector, r.shift.getD 0, r.placement.getD .before⟩

def selectsLocals (r : SelectorRecord) : Bool := r.keyword = .store || r.keyword = .load

end SelectorRecord

def readClassName (text : String) : Except RecordError ClassName :=
  (ClassName.ofString? text).mapError .badName

def readMemberName (text : String) : Except RecordError MemberName :=
  (MemberName.ofString? text).mapError .badName

def readSignature (text : String) : Except RecordError Signature :=
  (Signature.parse text).mapError (.badDescriptor text)

def TargetRecord.selector (r : TargetRecord) : Except RecordError MethodSelector := do
  let name ← readMemberName r.name
  match r.descriptor with
  | none => pure ⟨name, none⟩
  | some text => do
    let signature ← readSignature text
    pure ⟨name, some signature⟩

def HandlerRecord.reference (r : HandlerRecord) : Except RecordError HandlerRef := do
  let owner ← readClassName r.owner
  let name ← readMemberName r.name
  let signature ← readSignature r.descriptor
  pure ⟨owner, name, signature⟩

namespace DirectiveRecord

def withSelector (r : DirectiveRecord) : Except RecordError SelectorRecord :=
  match r.selector with
  | some s => .ok s
  | none => .error (.noSelector r.mode)

def point (r : DirectiveRecord) : Except RecordError InjectionPoint := do
  let s ← r.withSelector
  s.point

/-- What the record asks for; each mode needs parts of its own. -/
def action (r : DirectiveRecord) : Except RecordError Action :=
  match r.mode with
  | .inject => r.point.map fun p => .inject p r.cancellable
  | .redirect => r.point.map .redirect
  | .modifyConstant =>
    match r.constant with
    | none => .error .noConstant
    | some value =>
      let ordinal := (r.selector.bind SelectorRecord.ordinal).getD (-1)
      .ok (.modifyConstant ⟨value, ordinal⟩)
  | .modifyArgument => r.point.map fun p => .modifyArgument p r.argumentIndex
  | .modifyArguments => r.point.map .modifyArguments
  | .modifyVariable => do
    let s ← r.withSelector
    let p ← s.point
    if s.slot = none ∧ s.selectsLocals = false then .error .noSlot
    else pure (.modifyVariable p s.slot)
  | .overwrite => .ok .overwrite

/-- The directive that a record stands for. What it leaves out is the settings' priority, all
matches, no shift, the near side and the loosest comparison. -/
def directive (r : DirectiveRecord) (settings : Settings) : Except RecordError Directive := do
  let action ← r.action
  let targetClass ← readClassName r.targetClass
  let target ← r.target.selector
  let handler ← r.handler.reference
  pure {
    targetClass, target, handler
    priority := r.priority.getD settings.defaultPriority
    required := r.required
    action }

end DirectiveRecord

/-- The registry of some records' directives. -/
def Registry.ofRecords (records : List DirectiveRecord) (settings : Settings) :
    Except RecordError Registry := do
  let ds ← records.mapM fun r => r.directive settings
  pure (Registry.ofList ds)

end CodeWeaving
