/-! Code points and halves of surrogate pairs. A high half and the low half after it make one
character; text in which a half stands alone has no characters. -/
namespace CodeWeaving.Text

def isHighHalf (code : Nat) : Bool := 0xd800 ≤ code && code ≤ 0xdbff

def isLowHalf (code : Nat) : Bool := 0xdc00 ≤ code && code ≤ 0xdfff

/-- The character of a pair. -/
def joined (high low : Nat) : Char :=
  Char.ofNat (0x10000 + (high - 0xd800) * 0x400 + (low - 0xdc00))

/-- The characters of some codes, the last code first, put before the text that follows them. -/
def characters? (text : List Char) : List Nat → Option (List Char)
  | [] => some text
  | code :: codes =>
    if isLowHalf code then
      match codes with
      | high :: codes =>
        if isHighHalf high then characters? (joined high code :: text) codes else none
      | [] => none
    else if isHighHalf code then none
    else characters? (Char.ofNat code :: text) codes

/-- The text that some codes stand for, the last code first. -/
def ofCodes? (codes : List Nat) : Option String := (characters? [] codes).map String.ofList

end CodeWeaving.Text
