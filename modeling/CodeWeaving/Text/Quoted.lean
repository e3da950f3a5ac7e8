import CodeWeaving.Text.Invisible

/-! Text between double quotes in which every character shows. -/
namespace CodeWeaving.Text

def hexDigits (n : Nat) : List Char := Nat.toDigits 16 n

/-- Two hexadecimal digits, in lower case. -/
def hexByte (b : UInt8) : String :=
  String.ofList [Nat.digitChar (b.toNat / 16), Nat.digitChar (b.toNat % 16)]

/-- A quote, a backslash and the usual controls have short escapes; other characters that do not
show are written by code point. -/
def escape (c : Char) : List Char :=
  match c with
  | '"' => ['\\', '"']
  | '\\' => ['\\', '\\']
  | '\n' => ['\\', 'n']
  | '\r' => ['\\', 'r']
  | '\t' => ['\\', 't']
  | '\x00' => ['\\', '0']
  | c =>
    if isInvisible c then ['\\', 'u', '\x7b'] ++ hexDigits c.toNat ++ ['\x7d'] else [c]

def quoted (text : String) : String :=
  String.ofList ('"' :: text.toList.flatMap escape ++ ['"'])

end CodeWeaving.Text
