import CodeWeaving.Decimal.Layout
import CodeWeaving.Instruction.Basic
import CodeWeaving.Text.Quoted

/-! Instructions and literals as lines of text. -/
namespace CodeWeaving

open Decimal

/-- Listings write numbers in full, whatever their size. -/
def Constant.listingLayout : Layout where
  tie := .upward
  positional := fun _ => true
  wholeSuffix := ""
  positiveExponent := ""
  infinity := "inf"
  negativeInfinity := "-inf"
  undefined := "NaN"

/-- Messages write numbers out from a ten-thousandth up to below ten to the sixteenth. -/
def Constant.messageLayout : Layout where
  tie := .upward
  positional := fun e => -4 ≤ e && e ≤ 15
  wholeSuffix := ".0"
  positiveExponent := ""
  infinity := "inf"
  negativeInfinity := "-inf"
  undefined := "NaN"

/-- The literal as an operand: longs, floats and doubles carry their letter. -/
def Constant.listing : Constant → String
  | .null => "null"
  | .string s => Text.quoted s
  | .int i => toString i.toInt
  | .long l => toString l.toInt ++ "L"
  | .float x => listingLayout.render (.ofSingle x) ++ "F"
  | .double x => listingLayout.render (.ofDouble x) ++ "D"

/-- The literal with the name of its kind, as messages show it. -/
def Constant.title : Constant → String
  | .null => "Null"
  | .string s => "String(" ++ Text.quoted s ++ ")"
  | .int i => "Int(" ++ toString i.toInt ++ ")"
  | .long l => "Long(" ++ toString l.toInt ++ ")"
  | .float x => "Float(" ++ messageLayout.render (.ofSingle x) ++ ")"
  | .double x => "Double(" ++ messageLayout.render (.ofDouble x) ++ ")"

def Label.text (l : Label) : String := "l" ++ toString l.id.toNat

def InvokeKind.mnemonic : InvokeKind → String
  | .static => "invokestatic"
  | .virtual => "invokevirtual"
  | .special => "invokespecial"
  | .interface => "invokeinterface"

def FieldAccess.mnemonic : FieldAccess → String
  | .getField => "getfield"
  | .putField => "putfield"
  | .getStatic => "getstatic"
  | .putStatic => "putstatic"

def Condition.mnemonic : Condition → String
  | .always => "goto"
  | .ifZero => "ifeq"
  | .ifNonZero => "ifne"
  | .ifNegative => "iflt"
  | .ifNonNegative => "ifge"
  | .ifPositive => "ifgt"
  | .ifNonPositive => "ifle"
  | .ifNull => "ifnull"
  | .ifNonNull => "ifnonnull"

namespace Instruction

def text : Instruction → String
  | .pushConstant .null => "aconst_null"
  | .pushConstant c => "ldc " ++ c.listing
  | .loadLocal slot k => k.letter.toString ++ "load " ++ toString slot.toNat
  | .storeLocal slot k => k.letter.toString ++ "store " ++ toString slot.toNat
  | .invoke kind m => kind.mnemonic ++ " " ++ m.identity
  | .field access f => access.mnemonic ++ " " ++ f.identity
  | .new c => "new " ++ c.text
  | .checkCast t => "checkcast " ++ t.render
  | .dup => "dup"
  | .dupX1 => "dup_x1"
  | .dupX2 => "dup_x2"
  | .swap => "swap"
  | .pop => "pop"
  | .pop2 => "pop2"
  | .branch condition l => condition.mnemonic ++ " " ++ l.text
  | .ret none => "return"
  | .ret (some k) => k.letter.toString ++ "return"
  | .label l => l.text ++ ":"
  | .raw r => r.operands.foldl (fun s b => s ++ " " ++ Text.hexByte b)
      ("raw 0x" ++ Text.hexByte r.opcode)

/-- Labels stand out to the left of the other instructions. -/
def listingLine (i : Instruction) : String :=
  match i with
  | .label _ => "  " ++ i.text ++ "\n"
  | _ => "    " ++ i.text ++ "\n"

end Instruction

end CodeWeaving
