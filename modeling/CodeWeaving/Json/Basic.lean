/-! JSON values. Objects keep their members in the order written, repeated names included. Text can
be well formed and yet have no value: a number beyond every double, or half a surrogate pair in a
string or a name. Such parts may stand where nothing reads them. -/
namespace CodeWeaving

inductive Json where
  | null
  | bool (value : Bool)
  | integer (value : Int)
  | single (value : Float32)
  | double (value : Float)
  | string (value : String)
  | array (items : List Json)
  | object (members : List (String × Json))
  /-- Well-formed text that stands for no value. -/
  | unusable

namespace Json

def ofOption {α : Type} (encode : α → Json) : Option α → Json
  | none => .null
  | some a => encode a

def ofNat (n : Nat) : Json := .integer n

def ofList {α : Type} (encode : α → Json) (items : List α) : Json := .array (items.map encode)

/-- An object, if each name is one. -/
def ofMembers (members : List (Option String × Json)) : Json :=
  match members.mapM fun (name, v) => name.map fun n => (n, v) with
  | some members => .object members
  | none => .unusable

/-- A value tagged with the name of its case. -/
def tagged (tag : String) (value : Json) : Json := .object [(tag, value)]

end Json

end CodeWeaving
