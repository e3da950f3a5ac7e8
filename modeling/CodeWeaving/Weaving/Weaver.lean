import CodeWeaving.Weaving.Mode.Arguments
import CodeWeaving.Weaving.Mode.Filter
import CodeWeaving.Weaving.Mode.Inject
import CodeWeaving.Weaving.Mode.Overwrite
import CodeWeaving.Weaving.Mode.Redirect
import CodeWeaving.Weaving.Registry

/-! Weaving directives into a class: each into all methods it is for, or into none. -/
namespace CodeWeaving

inductive Status where
  | applied
  /-- The directive does not apply, which is nobody's fault. -/
  | skipped (cause : WeaveError)
  | failed (cause : WeaveError)
  deriving BEq, DecidableEq

/-- What became of one directive. -/
structure Outcome where
  /-- Where the directive stood in the list given. -/
  index : Nat
  directive : Directive
  /-- Identities of the methods woven into, in class order. -/
  methods : List String
  points : Nat
  status : Status
  deriving BEq, DecidableEq

def Outcome.cause? (o : Outcome) : Option WeaveError :=
  match o.status with
  | .applied => none
  | .skipped e | .failed e => some e

/-- A class after weaving. -/
structure Woven where
  cls : ClassDefinition
  outcomes : List Outcome
  journal : List Event

/-- The weaving by a program whose sums are checked: none if one overflows, for that ends the
program. -/
def Woven.checked (woven : Woven) : Option Woven :=
  if overflows woven.journal then none else some woven

namespace Weaver

def plan (cx : Context) (d : Draft) : Traced Plan :=
  match cx.directive.action with
  | .inject p cancellable => Inject.plan cx d p cancellable
  | .redirect p => Redirect.plan cx d p
  | .modifyConstant c => ModifyConstant.plan cx d c
  | .modifyArgument p index => ModifyArgument.plan cx d p index
  | .modifyArguments p => ModifyArguments.plan cx d p
  | .modifyVariable p slot => ModifyVariable.plan cx d p slot
  | .overwrite => Overwrite.plan cx d.method

def modelFault (e : ModelError) : WeaveError := .invariant (.model e)

def analysisFault (e : AnalysisError) : WeaveError := modelFault (.analysis e)

/-- The greatest depth of the code's paths for a stack bound. -/
def tighten (d : Draft) : Except WeaveError Draft :=
  (d.method.withStackBound.mapError modelFault).map fun m => d.withBounds m.maxStack m.maxLocals

/-- Locals enough for the code. -/
def coverLocals (d : Draft) : Except WeaveError Draft :=
  match boundOf? (d.method.code.localsNeeded d.method.parameterLength) with
  | some bound => .ok (d.withBounds d.method.maxStack (max d.method.maxLocals bound))
  | none => .error .tooManyLocals

/-- Checks a method after weaving. Depths are checked only where they were in order before. -/
def check (settings : Settings) (before : Method) : InPlace Draft Unit := do
  InPlace.require fun d => d.method.code.checkLabels.mapError analysisFault
  if settings.verifyAfterWeave ∧ before.code.simulate.isOk = true then InPlace.update tighten
  InPlace.update coverLocals

/-- Weaves the directive into a method and gives the number of points used. -/
def weaveMethod (cx : Context) : InPlace Draft Nat := do
  let before ← InPlace.read
  let plan ← InPlace.looking (plan cx before)
  let points ← plan.apply
  check cx.settings before.method
  pure points

/-- How far a directive has come through the methods of a class. -/
structure Progress where
  methods : List String
  points : Nat
  /-- The last method without a match, by what was not found there. -/
  unmatched : Option Sought

namespace Progress

def start : Progress := ⟨[], 0, none⟩

def add (p : Progress) (m : Method) (points : Nat) : Progress :=
  { p with methods := p.methods ++ [m.identity], points := p.points + points }

/-- Methods without a match are no failure once there is a point in some other. -/
def verdict (p : Progress) : Except WeaveError Progress :=
  match p.unmatched with
  | some sought => if p.points = 0 then .error (.noMatch sought) else .ok p
  | none => .ok p

end Progress

/-- Weaves into the method at a place, if there is one. -/
def weaveAt (cx : Context) (place : Nat) : InPlace (List Method) (Option (Method × Nat)) := do
  match (← InPlace.read)[place]? with
  | none => pure none
  | some m =>
    let points ← InPlace.within (fun _ => Draft.ofMethod m) (fun d ms => ms.set place d.method)
      (weaveMethod cx)
    pure (some (m, points))

/-- Weaves into the methods at some places, one after another. A method without a match is passed
by, any other error ends the matter. -/
def weaveTargets (cx : Context) (progress : Progress) :
    List Nat → InPlace (List Method) Progress
  | [] => pure progress
  | place :: places => do
    match ← (weaveAt cx place).attempt with
    | .ok none => weaveTargets cx progress places
    | .ok (some (m, points)) => weaveTargets cx (progress.add m points) places
    | .error (.noMatch sought) =>
      weaveTargets cx { progress with unmatched := some sought } places
    | .error e => InPlace.fail e

/-- Methods as they were, put back at their places. -/
def restore (snapshots : List (Method × Nat)) (ms : List Method) : List Method :=
  snapshots.foldl (fun ms (m, place) => ms.set place m) ms

/-- Weaves into all of the methods given or, by putting them back after a failure, into none. -/
def weaveAll (cx : Context) (targets : List (Method × Nat)) :
    InPlace (List Method) Progress := do
  let attempted ← (weaveTargets cx Progress.start (targets.map Prod.snd)).attempt
  match attempted.bind Progress.verdict with
  | .ok progress => pure progress
  | .error e =>
    InPlace.update fun ms => .ok (restore targets ms)
    InPlace.fail e

/-- The methods that a directive is for, with their places. -/
def targets (c : ClassDefinition) (d : Directive) : List (Method × Nat) :=
  c.methods.zipIdx.filter fun (m, _) => d.target.accepts m

/-- Weaves the directive into all methods that it is for. -/
def weaveDirective (settings : Settings) (handlers : HandlerProvider) (d : Directive) :
    InPlace ClassDefinition Progress := do
  let c ← InPlace.read
  if d.targetClass ≠ c.name then InPlace.fail (.wrongClass d.targetClass c.name)
  if (targets c d).isEmpty then InPlace.fail (.noTargetMethod c.name d.target)
  match handlers d.handler with
  | none => InPlace.fail (.unresolvedHandler d.handler)
  | some body =>
    InPlace.within ClassDefinition.methods (fun methods c => { c with methods })
      (weaveAll ⟨settings, c.name, d, ⟨d.handler, body⟩⟩ (targets c d))

/-- Whether a cause is nobody's fault. Finding nothing is, unless something was required. -/
def isHarmless (required : Bool) : WeaveError → Bool
  | .noMatch _ | .noTargetMethod .. => !required
  | .typeMismatch _ | .unresolvedHandler _ | .emptyHandler _ | .wrongClass .. => true
  | _ => false

def statusOf (d : Directive) (cause : WeaveError) : Status :=
  if isHarmless d.required cause then .skipped cause else .failed cause

def failureEvent (c : ClassName) (d : Directive) (cause : WeaveError) : Event :=
  if isHarmless d.required cause then .skipped c d cause else .failed c d cause

/-- Weaves one directive. What is left of the class is the class from then on. -/
def weaveOne (settings : Settings) (handlers : HandlerProvider) (c : ClassDefinition)
    (index : Nat) (d : Directive) : ClassDefinition × Outcome × List Event :=
  let (left, traced) := weaveDirective settings handlers d c
  match traced.result with
  | .ok progress =>
    (left, ⟨index, d, progress.methods, progress.points, .applied⟩,
      traced.journal ++ [.applied c.name d progress.points progress.methods])
  | .error cause =>
    (left, ⟨index, d, [], 0, statusOf d cause⟩, traced.journal ++ [failureEvent c.name d cause])

/-- Weaves directives one after another, in the order given. -/
def weaveInOrder (settings : Settings) (handlers : HandlerProvider) (c : ClassDefinition) :
    List (Directive × Nat) → Woven
  | [] => ⟨c, [], []⟩
  | (d, index) :: ds =>
    let (c, outcome, events) := weaveOne settings handlers c index d
    let rest := weaveInOrder settings handlers c ds
    ⟨rest.cls, outcome :: rest.outcomes, events ++ rest.journal⟩

/-- Weaves directives into a class, by falling priority. A class is woven once: after that it stays
as it is, and every directive fails. -/
def weave (settings : Settings) (handlers : HandlerProvider) (c : ClassDefinition)
    (ds : List Directive) : Woven :=
  if c.woven then
    ⟨c, ds.zipIdx.map fun (d, index) => ⟨index, d, [], 0, .failed (.alreadyWoven c.name)⟩,
      [.alreadyWoven c.name ds.length]⟩
  else
    let woven := weaveInOrder settings handlers c
      (inWeavingOrder (fun (d, _) => d.priority) ds.zipIdx)
    { woven with cls := woven.cls.markWoven }

/-- Weaves the directives that a registry holds for the class. -/
def weaveRegistered (settings : Settings) (handlers : HandlerProvider) (c : ClassDefinition)
    (r : Registry) : Woven :=
  weave settings handlers c (r.directivesFor c.name)

end Weaver

end CodeWeaving
