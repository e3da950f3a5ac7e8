import CodeWeaving.Format.Code
import CodeWeaving.Weaving.Directive
import CodeWeaving.Weaving.Settings

/-! Directives and settings as JSON. -/
namespace CodeWeaving

open Decode

def Json.ofInt32 (n : Int32) : Json := .integer n.toInt

def Json.ofUInt16 (n : UInt16) : Json := .ofNat n.toNat

namespace MatchMode

def all : List MatchMode := [.permissive, .exact, .contains]

def word : MatchMode → String
  | .permissive => "PERMISSIVE"
  | .exact => "EXACT"
  | .contains => "CONTAINS"

def ofJson : Decoder MatchMode := named all word

end MatchMode

namespace Placement

def all : List Placement := [.before, .after]

def word : Placement → String
  | .before => "BEFORE"
  | .after => "AFTER"

def ofJson : Decoder Placement := named all word

end Placement

namespace LocalAccess

def all : List LocalAccess := [.store, .load]

def word : LocalAccess → String
  | .store => "STORE"
  | .load => "LOAD"

end LocalAccess

namespace TargetPattern

def toJson (p : TargetPattern) : Json :=
  .object [("text", .string p.text), ("mode", .string p.mode.word)]

def ofJson : Decoder TargetPattern := fun v => do
  let ms ← membersInOrder ["text", "mode"] 1 v
  let text ← member "text" string ms
  let mode ← memberOr "mode" MatchMode.ofJson .permissive ms
  pure ⟨text, mode⟩

end TargetPattern

namespace Selector

def targeted (target : TargetPattern) (ordinal : Int32) : Json :=
  .object [("target", target.toJson), ("ordinal", .ofInt32 ordinal)]

def toJson : Selector → Json
  | .head => .string "Head"
  | .returns => .string "TailOrReturn"
  | .calls target ordinal => .tagged "BeforeCall" (targeted target ordinal)
  | .fieldAccesses target ordinal => .tagged "BeforeFieldAccess" (targeted target ordinal)
  | .allocations target ordinal => .tagged "BeforeNew" (targeted target ordinal)
  | .locals access slot kind ordinal => .tagged "AtStoreOrLoad" (.object
      [("access", .string access.word), ("slot", .ofOption .ofUInt16 slot),
        ("kind", .ofOption ValueKind.toJson kind), ("ordinal", .ofInt32 ordinal)])

def readTargeted (make : TargetPattern → Int32 → Selector) : Decoder Selector := fun v => do
  let ms ← members v
  let target ← member "target" TargetPattern.ofJson ms
  let ordinal ← member "ordinal" int32 ms
  pure (make target ordinal)

def readLocals : Decoder Selector := fun v => do
  let ms ← members v
  let access ← member "access" (named LocalAccess.all LocalAccess.word) ms
  let slot ← memberOption "slot" uint16 ms
  let kind ← memberOption "kind" ValueKind.ofJson ms
  let ordinal ← member "ordinal" int32 ms
  pure (.locals access slot kind ordinal)

def ofJson : Decoder Selector := fun v => do
  let (tag, payload) ← tagged v
  match tag with
  | "Head" => nothing .head payload
  | "TailOrReturn" => nothing .returns payload
  | "BeforeCall" => held (readTargeted .calls) payload
  | "BeforeFieldAccess" => held (readTargeted .fieldAccesses) payload
  | "BeforeNew" => held (readTargeted .allocations) payload
  | "AtStoreOrLoad" => held readLocals payload
  | _ => .error .form

end Selector

namespace InjectionPoint

def toJson (p : InjectionPoint) : Json :=
  .object [("selector", p.selector.toJson), ("shift", .ofInt32 p.shift),
    ("placement", .string p.placement.word)]

def ofJson : Decoder InjectionPoint := fun v => do
  let ms ← membersInOrder ["selector", "shift", "placement"] 1 v
  let selector ← member "selector" Selector.ofJson ms
  let shift ← memberOr "shift" int32 0 ms
  let placement ← memberOr "placement" Placement.ofJson .before ms
  pure ⟨selector, shift, placement⟩

end InjectionPoint

namespace ConstantMatch

def toJson (c : ConstantMatch) : Json :=
  .object [("value", c.value.toJson), ("ordinal", .ofInt32 c.ordinal)]

def ofJson : Decoder ConstantMatch := fun v => do
  let ms ← membersInOrder ["value", "ordinal"] 1 v
  let value ← member "value" Constant.ofJson ms
  let ordinal ← memberOr "ordinal" int32 (-1) ms
  pure ⟨value, ordinal⟩

end ConstantMatch

namespace Action

def toJson : Action → Json
  | .inject p cancellable =>
    .tagged "Inject" (.object [("at", p.toJson), ("cancellable", .bool cancellable)])
  | .redirect p => .tagged "Redirect" (.object [("at", p.toJson)])
  | .modifyConstant c => .tagged "ModifyConstant" (.object [("constant", c.toJson)])
  | .modifyArgument p index => .tagged "ModifyArg" (.object
      [("at", p.toJson), ("index", .ofOption (fun i => .ofNat i.toNat) index)])
  | .modifyArguments p => .tagged "ModifyArgs" (.object [("at", p.toJson)])
  | .modifyVariable p slot => .tagged "ModifyVariable" (.object
      [("at", p.toJson), ("slot", .ofOption .ofUInt16 slot)])
  | .overwrite => .string "Overwrite"

def point : Decoder InjectionPoint := fun v => do
  let ms ← members v
  member "at" InjectionPoint.ofJson ms

def readInject : Decoder Action := fun v => do
  let ms ← members v
  let p ← member "at" InjectionPoint.ofJson ms
  let cancellable ← member "cancellable" bool ms
  pure (.inject p cancellable)

def readModifyConstant : Decoder Action := fun v => do
  let ms ← members v
  let c ← member "constant" ConstantMatch.ofJson ms
  pure (.modifyConstant c)

def readModifyArgument : Decoder Action := fun v => do
  let ms ← members v
  let p ← member "at" InjectionPoint.ofJson ms
  let index ← memberOption "index" uint64 ms
  pure (.modifyArgument p index)

def readModifyVariable : Decoder Action := fun v => do
  let ms ← members v
  let p ← member "at" InjectionPoint.ofJson ms
  let slot ← memberOption "slot" uint16 ms
  pure (.modifyVariable p slot)

def ofJson : Decoder Action := fun v => do
  let (tag, payload) ← tagged v
  match tag with
  | "Inject" => held readInject payload
  | "Redirect" => (held point payload).map .redirect
  | "ModifyConstant" => held readModifyConstant payload
  | "ModifyArg" => held readModifyArgument payload
  | "ModifyArgs" => (held point payload).map .modifyArguments
  | "ModifyVariable" => held readModifyVariable payload
  | "Overwrite" => nothing .overwrite payload
  | _ => .error .form

end Action

namespace MethodSelector

def toJson (s : MethodSelector) : Json :=
  .object [("name", .string s.name.text),
    ("descriptor", .ofOption (fun g => .string g.render) s.signature)]

def ofJson : Decoder MethodSelector := fun v => do
  let ms ← membersInOrder ["name", "descriptor"] 1 v
  let name ← member "name" memberName ms
  let signature ← memberOption "descriptor" Decode.signature ms
  pure ⟨name, signature⟩

end MethodSelector

namespace HandlerRef

def toJson (h : HandlerRef) : Json :=
  .object [("ownerType", .string h.owner.text), ("name", .string h.name.text),
    ("descriptor", .string h.signature.render)]

def ofJson : Decoder HandlerRef := fun v => do
  let ms ← membersInOrder ["ownerType", "name", "descriptor"] 3 v
  let owner ← member "ownerType" className ms
  let name ← member "name" memberName ms
  let signature ← member "descriptor" Decode.signature ms
  pure ⟨owner, name, signature⟩

end HandlerRef

namespace Directive

def toJson (d : Directive) : Json :=
  .object [("target_class", .string d.targetClass.text), ("target", d.target.toJson),
    ("handler", d.handler.toJson), ("priority", .ofInt32 d.priority),
    ("required", .bool d.required), ("kind", d.action.toJson)]

def ofJson : Decoder Directive := fun v => do
  let ms ← membersInOrder ["target_class", "target", "handler", "priority", "required", "kind"] 6 v
  let targetClass ← member "target_class" className ms
  let target ← member "target" MethodSelector.ofJson ms
  let handler ← member "handler" HandlerRef.ofJson ms
  let priority ← member "priority" int32 ms
  let needed ← memberOr "required" bool false ms
  let action ← member "kind" Action.ofJson ms
  pure ⟨targetClass, target, handler, priority, needed, action⟩

end Directive

namespace Settings

def toJson (s : Settings) : Json :=
  .object [("defaultPriority", .ofInt32 s.defaultPriority),
    ("floatEpsilon", .double s.floatEpsilon), ("verifyAfterWeave", .bool s.verifyAfterWeave),
    ("cancellationToken", .string s.cancellationToken.text),
    ("returnableToken", .string s.returnableToken.text),
    ("argumentView", .string s.argumentView.text)]

/-- What is left out is as in the standard settings. -/
def ofJson : Decoder Settings := fun v => do
  let ms ← membersInOrder
      ["defaultPriority", "floatEpsilon", "verifyAfterWeave", "cancellationToken",
        "returnableToken", "argumentView"] 0 v
  let defaultPriority ← memberOr "defaultPriority" int32 standard.defaultPriority ms
  let floatEpsilon ← memberOr "floatEpsilon" double standard.floatEpsilon ms
  let verifyAfterWeave ← memberOr "verifyAfterWeave" bool standard.verifyAfterWeave ms
  let cancellationToken ← memberOr "cancellationToken" className standard.cancellationToken ms
  let returnableToken ← memberOr "returnableToken" className standard.returnableToken ms
  let argumentView ← memberOr "argumentView" className standard.argumentView ms
  pure ⟨defaultPriority, floatEpsilon, verifyAfterWeave, cancellationToken, returnableToken,
    argumentView⟩

end Settings

end CodeWeaving
