import CodeWeaving.Weaving.Error

/-! The journal of a weaving, and computations that write in it. -/
namespace CodeWeaving

inductive Level where
  | error
  | warn
  | info
  | debug
  deriving DecidableEq

def Level.title : Level → String
  | .error => "ERROR"
  | .warn => "WARN"
  | .info => "INFO"
  | .debug => "DEBUG"

/-- What is being done to one method. -/
inductive Step where
  /-- A cancellable call whose handler takes no token. -/
  | cannotCancel
  | injecting (placement : Placement) (instruction : Instruction)
  | modifyingArgument (index : Nat) (call : MethodRef)
  | modifyingArguments (count : Nat) (call : MethodRef)
  | replacing (instruction : Instruction)
  | modifying (instruction : Instruction)
  | overwriting (old new : Nat)

/-- What follows the directive's text in the entry for a step. -/
def Step.text : Step → String
  | .cannotCancel => "is cancellable but takes no token, so it cannot cancel"
  | .injecting placement i => s!"{placement.title} `{i.text}`"
  | .modifyingArgument index call => s!"on argument {index} of {call.identity}"
  | .modifyingArguments count call => s!"on the {count} arguments of {call.identity}"
  | .replacing i => s!"replaces `{i.text}`"
  | .modifying i => s!"at `{i.text}`"
  | .overwriting old new => s!"replaces {old} instructions with {new}"

inductive Event where
  | step (cls : ClassName) (method : String) (directive : Directive) (step : Step)
  | applied (cls : ClassName) (directive : Directive) (points : Nat) (methods : List String)
  | skipped (cls : ClassName) (directive : Directive) (cause : WeaveError)
  | failed (cls : ClassName) (directive : Directive) (cause : WeaveError)
  | alreadyWoven (cls : ClassName) (ignored : Nat)
  /-- A sum has overflowed. A program built to check its sums says so and ends. -/
  | overflow

def Event.level : Event → Level
  | .step .. => .debug
  | .applied .. => .info
  | .skipped .. => .warn
  | .failed .. => .error
  | .alreadyWoven .. => .error
  | .overflow => .error

def methodList (methods : List String) : String := String.intercalate ", " methods

def Event.message : Event → String
  | .step cls method directive work =>
    s!"{cls.text}.{method}: {directive.text} {work.text}"
  | .applied cls directive points methods =>
    s!"{cls.text}: applied {directive.text} at {points} point(s) in {methodList methods}"
  | .skipped cls directive cause =>
    s!"{cls.text}: skipped {directive.text}: {cause.message}"
  | .failed cls directive cause => s!"{cls.text}: failed {directive.text}: {cause.message}"
  | .alreadyWoven cls ignored =>
    s!"{cls.text} has already been woven, ignoring {ignored} directive(s)"
  | .overflow => "attempt to add with overflow"

def Event.text (e : Event) : String := e.level.title ++ " " ++ e.message

/-- Whether a sum has overflowed on the way. -/
def overflows (journal : List Event) : Bool :=
  journal.any fun
    | .overflow => true
    | _ => false

theorem overflows_append (a b : List Event) : overflows (a ++ b) = (overflows a || overflows b) :=
  List.any_append

/-- A result with the journal of how it came about, which an error does not undo. -/
structure Traced (α : Type) where
  journal : List Event
  result : Except WeaveError α

namespace Traced

variable {α β : Type}

protected def pure (a : α) : Traced α := ⟨[], .ok a⟩

protected def bind (x : Traced α) (f : α → Traced β) : Traced β :=
  match x.result with
  | .ok a => ⟨x.journal ++ (f a).journal, (f a).result⟩
  | .error e => ⟨x.journal, .error e⟩

instance : Monad Traced where
  pure := Traced.pure
  bind := Traced.bind

def fail (e : WeaveError) : Traced α := ⟨[], .error e⟩

def ofExcept (x : Except WeaveError α) : Traced α := ⟨[], x⟩

/-- The result as a value, an error too. -/
def attempt (x : Traced α) : Traced (Except WeaveError α) := ⟨x.journal, .ok x.result⟩

def note (e : Event) : Traced Unit := ⟨[e], .ok ()⟩

/-- Where a sum overflows, this goes on record. -/
def noteOverflow (overflow : Bool) : Traced Unit := ⟨if overflow then [.overflow] else [], .ok ()⟩

/-- What comes of it in a program whose sums are checked: nothing if one has overflowed, for that
ends the program. -/
def checked (x : Traced α) : Option (Except WeaveError α) :=
  if overflows x.journal then none else some x.result

@[simp] theorem result_pure (a : α) : (pure a : Traced α).result = .ok a := rfl

@[simp] theorem result_bind (x : Traced α) (f : α → Traced β) :
    (x >>= f).result = x.result.bind fun a => (f a).result := by
  show (Traced.bind x f).result = _
  unfold Traced.bind
  cases x.result <;> rfl

@[simp] theorem result_fail (e : WeaveError) : (fail e : Traced α).result = .error e := rfl

@[simp] theorem result_ofExcept (x : Except WeaveError α) : (ofExcept x).result = x := rfl

@[simp] theorem result_attempt (x : Traced α) : x.attempt.result = .ok x.result := rfl

@[simp] theorem result_note (e : Event) : (note e).result = .ok () := rfl

@[simp] theorem result_noteOverflow (overflow : Bool) : (noteOverflow overflow).result = .ok () :=
  rfl

/-- What is put on record does not change what comes of the rest. -/
@[simp] theorem result_noting {c : Prop} [Decidable c] {e : Event} {y : Traced β} :
    (if c then (do note e; y) else y).result = y.result := by
  split <;> rfl

end Traced

end CodeWeaving
