import CodeWeaving.Format.Directive
import CodeWeaving.Json.Reader
import CodeWeaving.Weaving.Record

/-! Records of directives as JSON. -/
namespace CodeWeaving

open Decode

namespace Mode

def all : List Mode :=
  [.inject, .redirect, .modifyConstant, .modifyArgument, .modifyArguments, .modifyVariable,
    .overwrite]

def ofJson : Decoder Mode := named all title

end Mode

namespace Keyword

def all : List Keyword := [.head, .tail, .return_, .invoke, .field, .new, .store, .load]

def word : Keyword → String
  | .head => "HEAD"
  | .tail => "TAIL"
  | .return_ => "RETURN"
  | .invoke => "INVOKE"
  | .field => "FIELD"
  | .new => "NEW"
  | .store => "STORE"
  | .load => "LOAD"

def ofJson : Decoder Keyword := named all word

end Keyword

namespace SelectorRecord

def toJson (r : SelectorRecord) : Json :=
  .object [("keyword", .string r.keyword.word),
    ("targetPattern", .ofOption .string r.targetPattern),
    ("ordinal", .ofOption .ofInt32 r.ordinal), ("shift", .ofOption .ofInt32 r.shift),
    ("placement", .ofOption (fun p => .string p.word) r.placement),
    ("match", .ofOption (fun m => .string m.word) r.mode),
    ("slot", .ofOption .ofUInt16 r.slot), ("kind", .ofOption ValueKind.toJson r.kind)]

def ofJson : Decoder SelectorRecord := fun v => do
  let ms ← membersInOrder
      ["keyword", "targetPattern", "ordinal", "shift", "placement", "match", "slot", "kind"] 1 v
  let keyword ← member "keyword" Keyword.ofJson ms
  let targetPattern ← memberOption "targetPattern" string ms
  let ordinal ← memberOption "ordinal" int32 ms
  let shift ← memberOption "shift" int32 ms
  let placement ← memberOption "placement" Placement.ofJson ms
  let mode ← memberOption "match" MatchMode.ofJson ms
  let slot ← memberOption "slot" uint16 ms
  let kind ← memberOption "kind" ValueKind.ofJson ms
  pure { keyword, targetPattern, ordinal, shift, placement, mode, slot, kind }

end SelectorRecord

namespace TargetRecord

def toJson (r : TargetRecord) : Json :=
  .object [("name", .string r.name), ("descriptor", .ofOption .string r.descriptor)]

def ofJson : Decoder TargetRecord := fun v => do
  let ms ← membersInOrder ["name", "descriptor"] 1 v
  let name ← member "name" string ms
  let descriptor ← memberOption "descriptor" string ms
  pure ⟨name, descriptor⟩

end TargetRecord

namespace HandlerRecord

def toJson (r : HandlerRecord) : Json :=
  .object [("ownerType", .string r.owner), ("name", .string r.name),
    ("descriptor", .string r.descriptor)]

def ofJson : Decoder HandlerRecord := fun v => do
  let ms ← membersInOrder ["ownerType", "name", "descriptor"] 3 v
  let owner ← member "ownerType" string ms
  let name ← member "name" string ms
  let descriptor ← member "descriptor" string ms
  pure ⟨owner, name, descriptor⟩

end HandlerRecord

/-- A literal with its type and its value side by side. -/
def Constant.typedJson : Constant → Json
  | .null => .object [("type", .string "null")]
  | .int i => .object [("type", .string "int"), ("value", .integer i.toInt)]
  | .long l => .object [("type", .string "long"), ("value", .integer l.toInt)]
  | .float x => .object [("type", .string "float"), ("value", .single x)]
  | .double x => .object [("type", .string "double"), ("value", .double x)]
  | .string s => .object [("type", .string "string"), ("value", .string s)]

def Constant.ofTypedJson : Decoder Constant := fun v => do
  let ms ← membersInOrder ["type", "value"] 2 v
  let (type, holds) ← member "type" tagged ms
  let type ← nothing type holds
  let value ← member? ms "value"
  match type with
  | "null" => nothing .null value
  | "int" => (held int32 value).map .int
  | "long" => (held int64 value).map .long
  | "float" => (held single value).map .float
  | "double" => (held Decode.double value).map .double
  | "string" => (held Decode.string value).map .string
  | _ => .error .form

namespace DirectiveRecord

def toJson (r : DirectiveRecord) : Json :=
  .object [("kind", .string r.mode.title), ("targetClass", .string r.targetClass),
    ("targetMethod", r.target.toJson), ("handler", r.handler.toJson),
    ("priority", .ofOption .ofInt32 r.priority), ("required", .bool r.required),
    ("selector", .ofOption SelectorRecord.toJson r.selector),
    ("cancellable", .bool r.cancellable),
    ("argIndex", .ofOption (fun i => .ofNat i.toNat) r.argumentIndex),
    ("constantMatch", .ofOption Constant.typedJson r.constant)]

def ofJson : Decoder DirectiveRecord := fun v => do
  let ms ← membersInOrder
      ["kind", "targetClass", "targetMethod", "handler", "priority", "required", "selector",
        "cancellable", "argIndex", "constantMatch"] 4 v
  let mode ← member "kind" Mode.ofJson ms
  let targetClass ← member "targetClass" string ms
  let target ← member "targetMethod" TargetRecord.ofJson ms
  let handler ← member "handler" HandlerRecord.ofJson ms
  let priority ← memberOption "priority" int32 ms
  let needed ← memberOr "required" bool false ms
  let selector ← memberOption "selector" SelectorRecord.ofJson ms
  let cancellable ← memberOr "cancellable" bool false ms
  let argumentIndex ← memberOption "argIndex" uint64 ms
  let constant ← memberOption "constantMatch" Constant.ofTypedJson ms
  pure ⟨mode, targetClass, target, handler, priority, needed, selector, cancellable,
    argumentIndex, constant⟩

end DirectiveRecord

/-- Why a text does not give a registry. -/
inductive RegistryError where
  | json
  | record (error : RecordError)
  deriving DecidableEq

/-- The registry of the records in a JSON value. -/
def Registry.ofJson (v : Json) (settings : Settings) : Except RegistryError Registry :=
  match Decode.list DirectiveRecord.ofJson v with
  | .error _ => .error .json
  | .ok records => (Registry.ofRecords records settings).mapError .record

/-- The registry of the records in a JSON text. -/
def Registry.ofText (text : String) (settings : Settings) : Except RegistryError Registry :=
  match Json.parse? text with
  | none => .error .json
  | some v => Registry.ofJson v settings

end CodeWeaving
