import CodeWeaving.Json.Number
import CodeWeaving.Text.Surrogate

/-! Reading JSON text: characters make tokens, and tokens fill the containers that are open. -/
namespace CodeWeaving.Json

inductive Token where
  | leftBrace
  | rightBrace
  | leftBracket
  | rightBracket
  | colon
  | comma
  | scalar (value : Json)
  | text (value : Option String)

/-- What the characters read last belong to. Words are kept in reverse, and so are the codes of a
text. -/
inductive Lexeme where
  | gap
  | word (read : List Char)
  | text (codes : List Nat)
  | escape (codes : List Nat)
  | unicode (codes : List Nat) (digits : Nat) (value : Nat)

/-- Tokens so far, in reverse, and what is being read. -/
structure Lexer where
  tokens : List Token
  lexeme : Lexeme

def isBlank (c : Char) : Bool := c = ' ' || c = '\n' || c = '\t' || c = '\r'

def mark? : Char → Option Token
  | '\x7b' => some .leftBrace
  | '\x7d' => some .rightBrace
  | '[' => some .leftBracket
  | ']' => some .rightBracket
  | ':' => some .colon
  | ',' => some .comma
  | _ => none

/-- A word is one of three literals or a number. -/
def word? (cs : List Char) : Option Json :=
  if cs = "null".toList then some .null
  else if cs = "true".toList then some (.bool true)
  else if cs = "false".toList then some (.bool false)
  else number? cs

def isWordChar (c : Char) : Bool :=
  c.isAlphanum || c = '-' || c = '+' || c = '.'

def hexValue? (c : Char) : Option Nat :=
  if '0' ≤ c ∧ c ≤ '9' then some (c.toNat - '0'.toNat)
  else if 'a' ≤ c ∧ c ≤ 'f' then some (c.toNat - 'a'.toNat + 10)
  else if 'A' ≤ c ∧ c ≤ 'F' then some (c.toNat - 'A'.toNat + 10)
  else none

def simpleEscape? : Char → Option Char
  | '"' => some '"'
  | '\\' => some '\\'
  | '/' => some '/'
  | 'b' => some '\x08'
  | 'f' => some '\x0c'
  | 'n' => some '\n'
  | 'r' => some '\r'
  | 't' => some '\t'
  | _ => none

namespace Lexer

/-- A character outside words and strings. -/
def between (tokens : List Token) (c : Char) : Option Lexer :=
  if isBlank c then some ⟨tokens, .gap⟩
  else if c = '"' then some ⟨tokens, .text []⟩
  else if isWordChar c then some ⟨tokens, .word [c]⟩
  else (mark? c).map fun t => ⟨t :: tokens, .gap⟩

def endWord (tokens : List Token) (read : List Char) : Option (List Token) :=
  (word? read.reverse).map fun v => .scalar v :: tokens

def step (l : Lexer) (c : Char) : Option Lexer :=
  match l.lexeme with
  | .gap => between l.tokens c
  | .word read =>
    if isWordChar c then some ⟨l.tokens, .word (c :: read)⟩
    else (endWord l.tokens read).bind fun tokens => between tokens c
  | .text codes =>
    if c = '\\' then some ⟨l.tokens, .escape codes⟩
    else if c = '"' then some ⟨.text (Text.ofCodes? codes) :: l.tokens, .gap⟩
    else if c.toNat < 32 then none
    else some ⟨l.tokens, .text (c.toNat :: codes)⟩
  | .escape codes =>
    if c = 'u' then some ⟨l.tokens, .unicode codes 0 0⟩
    else (simpleEscape? c).map fun d => ⟨l.tokens, .text (d.toNat :: codes)⟩
  | .unicode codes digits value => do
    let d ← hexValue? c
    let value := value * 16 + d
    if digits = 3 then some ⟨l.tokens, .text (value :: codes)⟩
    else some ⟨l.tokens, .unicode codes (digits + 1) value⟩

def finish (l : Lexer) : Option (List Token) :=
  match l.lexeme with
  | .gap => some l.tokens.reverse
  | .word read => (endWord l.tokens read).map List.reverse
  | _ => none

end Lexer

def tokens? (text : String) : Option (List Token) :=
  (text.toList.foldlM Lexer.step ⟨[], .gap⟩).bind Lexer.finish

/-- A container that is open, with what it holds so far in reverse. -/
inductive Frame where
  | items (read : List Json)
  | members (read : List (Option String × Json)) (key : Option String)

/-- What may come next, within the open containers, the innermost first. -/
inductive Expecting where
  | value (frames : List Frame)
  | valueOrEnd (frames : List Frame)
  | nameOrEnd (frames : List Frame)
  | name (read : List (Option String × Json)) (frames : List Frame)
  | colon (read : List (Option String × Json)) (key : Option String) (frames : List Frame)
  | after (value : Json) (frames : List Frame)

namespace Expecting

def startValue (frames : List Frame) : Token → Option Expecting
  | .scalar v => some (.after v frames)
  | .text s => some (.after (s.elim .unusable .string) frames)
  | .leftBracket => some (.valueOrEnd frames)
  | .leftBrace => some (.nameOrEnd frames)
  | _ => none

def startMember (read : List (Option String × Json)) (frames : List Frame) :
    Token → Option Expecting
  | .text key => some (.colon read key frames)
  | _ => none

def step : Expecting → Token → Option Expecting
  | .value frames, t => startValue frames t
  | .valueOrEnd frames, .rightBracket => some (.after (.array []) frames)
  | .valueOrEnd frames, t => startValue (.items [] :: frames) t
  | .nameOrEnd frames, .rightBrace => some (.after (.object []) frames)
  | .nameOrEnd frames, t => startMember [] frames t
  | .name read frames, t => startMember read frames t
  | .colon read key frames, .colon => some (.value (.members read key :: frames))
  | .after v (.items read :: frames), .comma => some (.value (.items (v :: read) :: frames))
  | .after v (.items read :: frames), .rightBracket =>
    some (.after (.array (v :: read).reverse) frames)
  | .after v (.members read key :: frames), .comma => some (.name ((key, v) :: read) frames)
  | .after v (.members read key :: frames), .rightBrace =>
    some (.after (.ofMembers ((key, v) :: read).reverse) frames)
  | _, _ => none

def value? : Expecting → Option Json
  | .after v [] => some v
  | _ => none

end Expecting

/-- The value a text stands for, if it is JSON. -/
def parse? (text : String) : Option Json := do
  let tokens ← tokens? text
  let expecting ← tokens.foldlM Expecting.step (.value [])
  expecting.value?

end CodeWeaving.Json
