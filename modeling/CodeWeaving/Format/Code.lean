import CodeWeaving.Instruction.Basic
import CodeWeaving.Json.Decode

/-! Instructions as JSON. -/
namespace CodeWeaving

open Decode

namespace ValueKind

def all : List ValueKind := [.int, .long, .float, .double, .reference]

def word : ValueKind → String
  | .int => "int"
  | .long => "long"
  | .float => "float"
  | .double => "double"
  | .reference => "reference"

def toJson (k : ValueKind) : Json := .string k.word

def ofJson : Decoder ValueKind := named all word

end ValueKind

namespace Constant

def toJson : Constant → Json
  | .null => .string "Null"
  | .int i => .tagged "Int" (.integer i.toInt)
  | .long l => .tagged "Long" (.integer l.toInt)
  | .float x => .tagged "Float" (.single x)
  | .double x => .tagged "Double" (.double x)
  | .string s => .tagged "String" (.string s)

def ofJson : Decoder Constant := fun v => do
  let (tag, payload) ← tagged v
  match tag with
  | "Null" => nothing .null payload
  | "Int" => (held int32 payload).map .int
  | "Long" => (held int64 payload).map .long
  | "Float" => (held single payload).map .float
  | "Double" => (held Decode.double payload).map .double
  | "String" => (held Decode.string payload).map .string
  | _ => .error .form

end Constant

namespace InvokeKind

def all : List InvokeKind := [.static, .virtual, .special, .interface]

def title : InvokeKind → String
  | .static => "Static"
  | .virtual => "Virtual"
  | .special => "Special"
  | .interface => "Interface"

end InvokeKind

namespace FieldAccess

def all : List FieldAccess := [.getField, .putField, .getStatic, .putStatic]

def title : FieldAccess → String
  | .getField => "GetField"
  | .putField => "PutField"
  | .getStatic => "GetStatic"
  | .putStatic => "PutStatic"

end FieldAccess

namespace Condition

def all : List Condition :=
  [.always, .ifZero, .ifNonZero, .ifNegative, .ifNonNegative, .ifPositive, .ifNonPositive,
    .ifNull, .ifNonNull]

def title : Condition → String
  | .always => "Always"
  | .ifZero => "IfZero"
  | .ifNonZero => "IfNonZero"
  | .ifNegative => "IfNegative"
  | .ifNonNegative => "IfNonNegative"
  | .ifPositive => "IfPositive"
  | .ifNonPositive => "IfNonPositive"
  | .ifNull => "IfNull"
  | .ifNonNull => "IfNonNull"

end Condition

def Label.toJson (l : Label) : Json := .ofNat l.id.toNat

def Label.ofJson : Decoder Label := fun v => (uint32 v).map Label.mk

namespace MethodRef

def toJson (m : MethodRef) : Json :=
  .object [("owner", .string m.owner.text), ("name", .string m.name.text),
    ("descriptor", .string m.signature.render)]

def ofJson : Decoder MethodRef := fun v => do
  let ms ← membersInOrder ["owner", "name", "descriptor"] 3 v
  let owner ← member "owner" className ms
  let name ← member "name" memberName ms
  let signature ← member "descriptor" Decode.signature ms
  pure ⟨owner, name, signature⟩

end MethodRef

namespace FieldRef

def toJson (f : FieldRef) : Json :=
  .object [("owner", .string f.owner.text), ("name", .string f.name.text),
    ("descriptor", .string f.type.render)]

def ofJson : Decoder FieldRef := fun v => do
  let ms ← membersInOrder ["owner", "name", "descriptor"] 3 v
  let owner ← member "owner" className ms
  let name ← member "name" memberName ms
  let type ← member "descriptor" valueType ms
  pure ⟨owner, name, type⟩

end FieldRef

namespace RawInstruction

def toJson (r : RawInstruction) : Json :=
  .object [("opcode", .ofNat r.opcode.toNat),
    ("operands", .ofList (fun b => .ofNat b.toNat) r.operands),
    ("pops", .ofNat r.pops.toNat), ("pushes", .ofNat r.pushes.toNat)]

def ofJson : Decoder RawInstruction := fun v => do
  let ms ← membersInOrder ["opcode", "operands", "pops", "pushes"] 4 v
  let opcode ← member "opcode" uint8 ms
  let operands ← memberOr "operands" (list uint8) [] ms
  let pops ← member "pops" uint8 ms
  let pushes ← member "pushes" uint8 ms
  pure ⟨opcode, operands, pops, pushes⟩

end RawInstruction

namespace Instruction

def toJson : Instruction → Json
  | .pushConstant c => .tagged "PushConstant" c.toJson
  | .loadLocal slot k => .tagged "LoadLocal" (.array [.ofNat slot.toNat, k.toJson])
  | .storeLocal slot k => .tagged "StoreLocal" (.array [.ofNat slot.toNat, k.toJson])
  | .invoke kind m => .tagged "Invoke" (.array [.string kind.title, m.toJson])
  | .field access f => .tagged "Field" (.array [.string access.title, f.toJson])
  | .new c => .tagged "New" (.string c.text)
  | .checkCast t => .tagged "CheckCast" (.string t.render)
  | .dup => .string "Dup"
  | .dupX1 => .string "DupX1"
  | .dupX2 => .string "DupX2"
  | .swap => .string "Swap"
  | .pop => .string "Pop"
  | .pop2 => .string "Pop2"
  | .branch condition l => .tagged "Branch" (.array [.string condition.title, l.toJson])
  | .ret kind => .tagged "Return" (.ofOption ValueKind.toJson kind)
  | .label l => .tagged "Label" l.toJson
  | .raw r => .tagged "Raw" r.toJson

def ofJson : Decoder Instruction := fun v => do
  let (tag, payload) ← tagged v
  match tag with
  | "PushConstant" => (held Constant.ofJson payload).map .pushConstant
  | "LoadLocal" =>
    (held (pair uint16 ValueKind.ofJson) payload).map fun (slot, k) => .loadLocal slot k
  | "StoreLocal" =>
    (held (pair uint16 ValueKind.ofJson) payload).map fun (slot, k) => .storeLocal slot k
  | "Invoke" =>
    (held (pair (named InvokeKind.all InvokeKind.title) MethodRef.ofJson) payload).map
      fun (kind, m) => .invoke kind m
  | "Field" =>
    (held (pair (named FieldAccess.all FieldAccess.title) FieldRef.ofJson) payload).map
      fun (access, f) => .field access f
  | "New" => (held className payload).map .new
  | "CheckCast" => (held refType payload).map .checkCast
  | "Dup" => nothing .dup payload
  | "DupX1" => nothing .dupX1 payload
  | "DupX2" => nothing .dupX2 payload
  | "Swap" => nothing .swap payload
  | "Pop" => nothing .pop payload
  | "Pop2" => nothing .pop2 payload
  | "Branch" =>
    (held (pair (named Condition.all Condition.title) Label.ofJson) payload).map
      fun (condition, l) => .branch condition l
  | "Return" => (held (nullable ValueKind.ofJson) payload).map .ret
  | "Label" => (held Label.ofJson payload).map .label
  | "Raw" => (held RawInstruction.ofJson payload).map .raw
  | _ => .error .form

end Instruction

def Code.toJson (code : Code) : Json := .ofList Instruction.toJson code

def Code.ofJson : Decoder Code := list Instruction.ofJson

end CodeWeaving
