import CodeWeaving.Class.Basic
import CodeWeaving.Format.Code

/-! Classes as JSON. -/
namespace CodeWeaving

open Decode

def Flags.toJson {mask : UInt16} (f : Flags mask) : Json := .ofNat f.bits.toNat

/-- Unknown flags are dropped. -/
def Flags.ofJson (mask : UInt16) : Decoder (Flags mask) := fun v => (uint16 v).map (ofBits mask)

def Flags.none (mask : UInt16) : Flags mask := ofBits mask 0

namespace Field

def toJson (f : Field) : Json :=
  .object [("name", .string f.name.text), ("descriptor", .string f.type.render),
    ("access_flags", f.flags.toJson)]

def ofJson : Decoder Field := fun v => do
  let ms ← membersInOrder ["name", "descriptor", "access_flags"] 2 v
  let name ← member "name" memberName ms
  let type ← member "descriptor" valueType ms
  let flags ← memberOr "access_flags" (Flags.ofJson 0x50df) (Flags.none 0x50df) ms
  pure ⟨name, type, flags⟩

end Field

namespace Method

def toJson (m : Method) : Json :=
  .object [("name", .string m.name.text), ("descriptor", .string m.signature.render),
    ("accessFlags", m.flags.toJson), ("maxStack", .ofNat m.maxStack.toNat),
    ("maxLocals", .ofNat m.maxLocals.toNat), ("instructions", m.code.toJson)]

def ofJson : Decoder Method := fun v => do
  let ms ← membersInOrder
      ["name", "descriptor", "accessFlags", "maxStack", "maxLocals", "instructions"] 6 v
  let name ← member "name" memberName ms
  let signature ← member "descriptor" Decode.signature ms
  let flags ← memberOr "accessFlags" (Flags.ofJson 0x1dff) (Flags.none 0x1dff) ms
  let maxStack ← memberOr "maxStack" uint16 0 ms
  let maxLocals ← memberOr "maxLocals" uint16 0 ms
  let code ← member "instructions" Code.ofJson ms
  pure { name, signature, flags, maxStack, maxLocals, code }

end Method

namespace ClassDefinition

def toJson (c : ClassDefinition) : Json :=
  .object [("name", .string c.name.text), ("superName", .string c.superName.text),
    ("fields", .ofList Field.toJson c.fields), ("methods", .ofList Method.toJson c.methods),
    ("woven", .bool c.woven)]

def ofJson : Decoder ClassDefinition := fun v => do
  let ms ← membersInOrder ["name", "superName", "fields", "methods", "woven"] 1 v
  let name ← member "name" className ms
  let superName ← memberOr "superName" className .object ms
  let fields ← memberOr "fields" (list Field.ofJson) [] ms
  let methods ← memberOr "methods" (list Method.ofJson) [] ms
  let woven ← memberOr "woven" bool false ms
  pure { name, superName, fields, methods, woven }

end ClassDefinition

end CodeWeaving
