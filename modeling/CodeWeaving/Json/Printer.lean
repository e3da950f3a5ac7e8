import CodeWeaving.Decimal.Layout
import CodeWeaving.Json.Basic

/-! JSON text, on one line or indented. -/
namespace CodeWeaving.Json

open Decimal

/-- Doubles are written without an exponent from 0.00001 up to sixteen digits. -/
def doubleLayout : Layout where
  tie := .toEven
  positional := fun e => -5 ≤ e && e ≤ 15
  wholeSuffix := ".0"
  positiveExponent := "+"
  infinity := "null"
  negativeInfinity := "null"
  undefined := "null"

/-- Singles are written without an exponent from 0.000001 up to thirteen digits. -/
def singleLayout : Layout :=
  { doubleLayout with positional := fun e => -6 ≤ e && e ≤ 12 }

/-- Only quotes, backslashes and controls are escaped. -/
def escape (c : Char) : List Char :=
  match c with
  | '"' => ['\\', '"']
  | '\\' => ['\\', '\\']
  | '\x08' => ['\\', 'b']
  | '\x0c' => ['\\', 'f']
  | '\n' => ['\\', 'n']
  | '\r' => ['\\', 'r']
  | '\t' => ['\\', 't']
  | c =>
    if c.toNat < 32 then
      ['\\', 'u', '0', '0', Nat.digitChar (c.toNat / 16), Nat.digitChar (c.toNat % 16)]
    else [c]

def quoted (text : String) : String :=
  String.ofList ('"' :: text.toList.flatMap escape ++ ['"'])

mutual

/-- The text before a value, followed by the value on one line. -/
def write (before : String) : Json → String
  | .null | .unusable => before ++ "null"
  | .bool b => before ++ (if b then "true" else "false")
  | .integer n => before ++ toString n
  | .single x => before ++ singleLayout.render (.ofSingle x)
  | .double x => before ++ doubleLayout.render (.ofDouble x)
  | .string s => before ++ quoted s
  | .array items => writeItems (before ++ "[") true items ++ "]"
  | .object members => writeMembers (before ++ "\x7b") true members ++ "\x7d"

def writeItems (before : String) (first : Bool) : List Json → String
  | [] => before
  | item :: items =>
    writeItems (write (if first then before else before ++ ",") item) false items

def writeMembers (before : String) (first : Bool) : List (String × Json) → String
  | [] => before
  | (name, value) :: members =>
    writeMembers (write ((if first then before else before ++ ",") ++ quoted name ++ ":") value)
      false members

end

def compact (v : Json) : String := write "" v

def newline (depth : Nat) : String := "\n" ++ String.ofList (List.replicate (2 * depth) ' ')

mutual

/-- The text before a value, followed by the value with two more spaces for each level. -/
def indent (depth : Nat) (before : String) : Json → String
  | .array [] => before ++ "[]"
  | .array (item :: items) =>
    indentItems (depth + 1) (before ++ "[") true (item :: items) ++ newline depth ++ "]"
  | .object [] => before ++ "\x7b\x7d"
  | .object (member :: members) =>
    indentMembers (depth + 1) (before ++ "\x7b") true (member :: members) ++ newline depth ++
      "\x7d"
  | .null | .unusable => before ++ "null"
  | .bool b => before ++ (if b then "true" else "false")
  | .integer n => before ++ toString n
  | .single x => before ++ singleLayout.render (.ofSingle x)
  | .double x => before ++ doubleLayout.render (.ofDouble x)
  | .string s => before ++ quoted s

def indentItems (depth : Nat) (before : String) (first : Bool) : List Json → String
  | [] => before
  | item :: items =>
    indentItems depth
      (indent depth ((if first then before else before ++ ",") ++ newline depth) item) false items

def indentMembers (depth : Nat) (before : String) (first : Bool) : List (String × Json) → String
  | [] => before
  | (name, value) :: members =>
    indentMembers depth
      (indent depth
        ((if first then before else before ++ ",") ++ newline depth ++ quoted name ++ ": ") value)
      false members

end

def indented (v : Json) : String := indent 0 "" v

end CodeWeaving.Json
