import CodeWeaving.Descriptor.Parser
import CodeWeaving.Json.Basic

/-! Reading typed values out of JSON values. -/
namespace CodeWeaving

/-- Why a JSON value is not of the form wanted. -/
inductive DecodeError where
  | form
  | name (error : NameError)
  | descriptor (error : DescriptorError)
  deriving DecidableEq

/-- The text of a name's or descriptor's own error; other errors have none. -/
def DecodeError.message? : DecodeError → Option String
  | .form => none
  | .name e => some e.message
  | .descriptor e => some e.message

abbrev Decoder (α : Type) := Json → Except DecodeError α

namespace Decode

variable {α β : Type}

def string : Decoder String
  | .string s => .ok s
  | _ => .error .form

def bool : Decoder Bool
  | .bool b => .ok b
  | _ => .error .form

/-- An integer from `low` up to but not including `high`. -/
def integer (low high : Int) : Decoder Int
  | .integer n => if low ≤ n ∧ n < high then .ok n else .error .form
  | _ => .error .form

def natural (high : Nat) : Decoder Nat := fun v => (integer 0 high v).map Int.toNat

def uint8 : Decoder UInt8 := fun v => (natural UInt8.size v).map UInt8.ofNat
def uint16 : Decoder UInt16 := fun v => (natural UInt16.size v).map UInt16.ofNat
def uint32 : Decoder UInt32 := fun v => (natural UInt32.size v).map UInt32.ofNat
def uint64 : Decoder UInt64 := fun v => (natural UInt64.size v).map UInt64.ofNat
def int32 : Decoder Int32 := fun v => (integer (-0x80000000) 0x80000000 v).map Int32.ofInt
def int64 : Decoder Int64 := fun v =>
  (integer (-0x8000000000000000) 0x8000000000000000 v).map Int64.ofInt

def double : Decoder Float
  | .double x => .ok x
  | .single x => .ok x.toFloat
  | .integer n => .ok (if 0 ≤ n then n.toNat.toUInt64.toFloat else (Int64.ofInt n).toFloat)
  | _ => .error .form

/-- A number rounded to single precision; what is too large becomes infinite. -/
def single : Decoder Float32
  | .single x => .ok x
  | .double x => .ok x.toFloat32
  | .integer n => .ok (if 0 ≤ n then n.toNat.toUInt64.toFloat32 else (Int64.ofInt n).toFloat32)
  | _ => .error .form

def list (item : Decoder α) : Decoder (List α)
  | .array items => items.mapM item
  | _ => .error .form

/-- A value for which `null` may stand. -/
def nullable (value : Decoder α) : Decoder (Option α)
  | .null => .ok none
  | v => (value v).map some

def pair (first : Decoder α) (second : Decoder β) : Decoder (α × β)
  | .array [a, b] => do
    let a ← first a
    let b ← second b
    pure (a, b)
  | _ => .error .form

abbrev Members := List (String × Json)

def members : Decoder Members
  | .object ms => .ok ms
  | _ => .error .form

/-- The members of an object, or of an array that holds the values of the first few names in order,
and no fewer than are needed. -/
def membersInOrder (names : List String) (needed : Nat) : Decoder Members
  | .object ms => .ok ms
  | .array values =>
    if needed ≤ values.length ∧ values.length ≤ names.length then .ok (names.zip values)
    else .error .form
  | _ => .error .form

/-- The member of a name, which must not be there twice. -/
def member? (ms : Members) (name : String) : Except DecodeError (Option Json) :=
  match ms.filter fun m => m.1 = name with
  | [] => .ok none
  | [(_, v)] => .ok (some v)
  | _ => .error .form

def member (name : String) (value : Decoder α) (ms : Members) : Except DecodeError α := do
  match ← member? ms name with
  | some v => value v
  | none => .error .form

def memberOr (name : String) (value : Decoder α) (default : α) (ms : Members) :
    Except DecodeError α := do
  match ← member? ms name with
  | some v => value v
  | none => .ok default

def memberOption (name : String) (value : Decoder α) (ms : Members) :
    Except DecodeError (Option α) :=
  memberOr name (nullable value) none ms

/-- The name of a case, alone or with what the case holds. -/
def tagged : Decoder (String × Option Json)
  | .string tag => .ok (tag, none)
  | .object [(tag, v)] => .ok (tag, some v)
  | _ => .error .form

/-- What a case holds, read if it is there. -/
def held (value : Decoder α) : Option Json → Except DecodeError α
  | some v => value v
  | none => .error .form

/-- A case that holds nothing, for which `null` may be written. -/
def nothing (a : α) : Option Json → Except DecodeError α
  | none | some .null => .ok a
  | _ => .error .form

/-- One of some named values. -/
def named (all : List α) (name : α → String) : Decoder α := fun v => do
  let (tag, payload) ← tagged v
  match all.find? fun a => name a = tag with
  | some a => nothing a payload
  | none => .error .form

def memberName : Decoder MemberName := fun v => do
  let text ← string v
  (MemberName.ofString? text).mapError .name

def className : Decoder ClassName := fun v => do
  let text ← string v
  (ClassName.ofString? text).mapError .name

def valueType : Decoder ValueType := fun v => do
  let text ← string v
  (ValueType.parse text).mapError .descriptor

def refType : Decoder RefType := fun v => do
  let text ← string v
  (RefType.parse text).mapError .descriptor

def signature : Decoder Signature := fun v => do
  let text ← string v
  (Signature.parse text).mapError .descriptor

end Decode

end CodeWeaving
