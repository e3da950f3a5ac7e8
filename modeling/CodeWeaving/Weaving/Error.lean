import CodeWeaving.Code.Stream
import CodeWeaving.Weaving.Directive

/-! Why a directive is not woven. -/
namespace CodeWeaving

/-- Why a selector cannot be used, or not where it leads. -/
inductive SelectorFault where
  | ordinal (ordinal : Int32)
  | afterReturn
  | cancelledConstructor
  | notOnCalls (selector : Selector)
  | notACall (instruction : Instruction)
  | notRedirectable (selector : Selector)
  | constructorCall
  | notASite (instruction : Instruction)
  | noSlot (instruction : Instruction)
  | slotOutOfRange (slot : UInt16) (method : String)
  | variableAfterReturn
  deriving DecidableEq

def SelectorFault.message : SelectorFault → String
  | .ordinal n => s!"ordinal {n.toInt} (expected -1 or a non-negative index)"
  | .afterReturn => "cannot inject after a return"
  | .cancelledConstructor => "constructors can only be cancelled at a return"
  | .notOnCalls selector => s!"{selector.text} does not select calls"
  | .notACall i => s!"`{i.text}` is not a call"
  | .notRedirectable selector => s!"{selector.text} cannot be redirected"
  | .constructorCall => "constructor calls cannot be redirected"
  | .notASite i => s!"`{i.text}` is not a call or field access"
  | .noSlot i => s!"no local slot given to modify at `{i.text}`"
  | .slotOutOfRange slot method => s!"slot {slot.toNat} is not a local of {method}"
  | .variableAfterReturn => "cannot modify a variable after a return"

/-- What passes through a handler that takes one value and gives one back. -/
inductive Filtered where
  | argument
  | variable
  | constant
  deriving DecidableEq

def Filtered.text : Filtered → String
  | .argument => "argument"
  | .variable => "variable"
  | .constant => "constant"

/-- Why a handler's signature does not fit where it is to be called. -/
inductive TypeFault where
  | inconvertible (source target : ValueType)
  | severalTokens
  | tooManyArguments (method : String)
  | notAFilter (filtered : Filtered)
  | noArgument (call : MethodRef) (index : UInt64)
  | unclearArgument (call : MethodRef)
  | notAViewHandler (view : ClassName)
  | operandCount (instruction : Instruction) (operands parameters : Nat)
  | noResult (instruction : Instruction)
  | notInterchangeable (handler : HandlerRef) (method : String)
  deriving DecidableEq

def TypeFault.message : TypeFault → String
  | .inconvertible source target => s!"cannot convert {source.render} to {target.render}"
  | .severalTokens => "handler takes more than one token"
  | .tooManyArguments method => s!"handler takes more arguments than {method}"
  | .notAFilter filtered => s!"{filtered.text} handlers take one value and return one"
  | .noArgument call index => s!"{call.identity} has no argument {index.toNat}"
  | .unclearArgument call =>
    s!"cannot tell which argument of {call.identity} the handler takes"
  | .notAViewHandler view => s!"argument batch handlers take a single {view.text}"
  | .operandCount i operands parameters =>
    s!"`{i.text}` has {operands} operands but the handler takes {parameters}"
  | .noResult i => s!"handler returns nothing in place of `{i.text}`"
  | .notInterchangeable handler method => s!"{handler.text} cannot stand in for {method}"

/-- What was looked for in a method and not found. -/
inductive Sought where
  | point (selector : Selector)
  | constant (value : ConstantMatch)
  deriving BEq, DecidableEq

def Sought.text : Sought → String
  | .point selector => selector.text
  | .constant value => value.text

/-- Something that weaving relies on and that does not hold. -/
inductive InvariantFault where
  | anchor (error : AnchorError)
  | model (error : ModelError)
  deriving DecidableEq

def AnchorError.message : AnchorError → String
  | .foreign a => s!"anchor {a.index} is not owned by stream {a.stream}"
  | .removed a => s!"anchor {a.index} of stream {a.stream} was removed"

def InvariantFault.message : InvariantFault → String
  | .anchor e => e.message
  | .model e => e.message

inductive WeaveError where
  | noMatch (sought : Sought)
  | unsupportedSelector (fault : SelectorFault)
  | typeMismatch (fault : TypeFault)
  | unresolvedHandler (handler : HandlerRef)
  | emptyHandler (handler : HandlerRef)
  | invariant (fault : InvariantFault)
  | noTargetMethod (cls : ClassName) (target : MethodSelector)
  | wrongClass (expected found : ClassName)
  | alreadyWoven (cls : ClassName)
  | tooManyLocals
  deriving BEq, DecidableEq

def WeaveError.message : WeaveError → String
  | .noMatch sought => "no match found for " ++ sought.text
  | .unsupportedSelector fault => "unsupported selector: " ++ fault.message
  | .typeMismatch fault => "type mismatch: " ++ fault.message
  | .unresolvedHandler handler => s!"handler {handler.text} could not be resolved"
  | .emptyHandler handler => s!"handler {handler.text} has no code could not be resolved"
  | .invariant fault => "internal invariant violated: " ++ fault.message
  | .noTargetMethod cls target => s!"no method matches {cls.text}.{target.text}"
  | .wrongClass expected found =>
    s!"directive targets {expected.text} but was given {found.text}"
  | .alreadyWoven cls => s!"class {cls.text} has already been woven"
  | .tooManyLocals => "too many locals"

end CodeWeaving
