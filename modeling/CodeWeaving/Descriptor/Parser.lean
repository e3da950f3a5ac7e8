import CodeWeaving.Descriptor.Basic

/-! Reading types and signatures: each reader takes the longest form it knows off the front. -/
namespace CodeWeaving

/-- Why a text is not a descriptor. -/
inductive DescriptorError where
  | leftover (c : Char)
  | badBase (c : Char)
  | missingBase
  | notAnObject
  | unterminated (name : String)
  | badName (fault : NameError)
  | badReference (c : Char)
  | missingType
  | notASignature
  deriving DecidableEq, Repr

namespace DescriptorError

def message : DescriptorError → String
  | .leftover c => s!"Unexpected leftover input '{c}'"
  | .badBase c => s!"Invalid base type character '{c}'"
  | .missingBase => "Missing base type character"
  | .notAnObject => "Expected object type to start with `L`"
  | .unterminated name => s!"Missing terminator for 'L{name}'"
  | .badName fault => fault.message
  | .badReference c => s!"Invalid reference type character '{c}'"
  | .missingType => "Missing field type"
  | .notASignature => "Expected '(' for method"

/-- Whether the text ended too early, rather than holding something wrong. -/
def isEndOfInput : DescriptorError → Bool
  | .missingBase | .unterminated _ | .missingType => true
  | _ => false

end DescriptorError

/-- Reads a value off the front of a text and hands back the rest. -/
abbrev DescriptorReader (α : Type) := List Char → Except DescriptorError (α × List Char)

/-- A reader's value, if nothing is left over. -/
def DescriptorReader.whole {α : Type} (read : DescriptorReader α) (text : String) :
    Except DescriptorError α :=
  match read text.toList with
  | .ok (a, []) => .ok a
  | .ok (_, c :: _) => .error (.leftover c)
  | .error e => .error e

namespace BaseType

def read : DescriptorReader BaseType
  | [] => .error .missingBase
  | c :: rest => match ofLetter? c with
    | some b => .ok (b, rest)
    | none => .error (.badBase c)

def parse (text : String) : Except DescriptorError BaseType := DescriptorReader.whole read text

end BaseType

namespace ClassName

/-- The class name up to the first semicolon. -/
def readTail (cs : List Char) : Except DescriptorError (ClassName × List Char) :=
  match cs.dropWhile (· ≠ ';') with
  | [] => .error (.unterminated (String.ofList cs))
  | _ :: rest => match ofString? (String.ofList (cs.takeWhile (· ≠ ';'))) with
    | .ok c => .ok (c, rest)
    | .error e => .error (.badName e)

def read : DescriptorReader ClassName
  | 'L' :: rest => readTail rest
  | _ => .error .notAnObject

def parse (text : String) : Except DescriptorError ClassName := DescriptorReader.whole read text

end ClassName

namespace RefType

/-- An element type after the brackets of an array type. -/
def readArray (extra : Nat) : DescriptorReader RefType
  | 'L' :: rest => (ClassName.readTail rest).map fun (c, r) => (.objectArray extra c, r)
  | cs => (BaseType.read cs).map fun (b, r) => (.primitiveArray extra b, r)

def read : DescriptorReader RefType
  | [] => .error .missingType
  | 'L' :: rest => (ClassName.readTail rest).map fun (c, r) => (.object c, r)
  | '[' :: rest =>
    readArray (rest.takeWhile (· = '[')).length (rest.dropWhile (· = '['))
  | c :: _ => .error (.badReference c)

def parse (text : String) : Except DescriptorError RefType := DescriptorReader.whole read text

end RefType

namespace ValueType

def read : DescriptorReader ValueType
  | [] => .error .missingType
  | c :: rest => match BaseType.ofLetter? c with
    | some b => .ok (.base b, rest)
    | none => (RefType.read (c :: rest)).map fun (t, r) => (.ref t, r)

def parse (text : String) : Except DescriptorError ValueType := DescriptorReader.whole read text

end ValueType

theorem ClassName.readTail_length {cs rest : List Char} {c : ClassName}
    (h : readTail cs = .ok (c, rest)) : rest.length < cs.length := by
  unfold readTail at h
  split at h
  · cases h
  · rename_i d r hd
    split at h
    · cases h
      have := (List.dropWhile_suffix (fun c : Char => decide (c ≠ ';')) (l := cs)).length_le
      rw [hd] at this
      exact this
    · cases h

theorem BaseType.read_length {cs rest : List Char} {b : BaseType}
    (h : read cs = .ok (b, rest)) : rest.length < cs.length := by
  unfold read at h
  split at h
  · cases h
  · split at h <;> cases h
    simp

theorem RefType.readArray_length {cs rest : List Char} {n : Nat} {t : RefType}
    (h : readArray n cs = .ok (t, rest)) : rest.length < cs.length := by
  unfold readArray at h
  split at h
  · rename_i r
    cases hc : ClassName.readTail r with
    | error e => simp [hc, Except.map] at h
    | ok p =>
      simp only [hc, Except.map, Except.ok.injEq, Prod.mk.injEq] at h
      have : p.2.length < _ := ClassName.readTail_length hc
      rw [h.2] at this
      exact Nat.lt_trans this (by simp)
  · cases hb : BaseType.read cs with
    | error e => simp [hb, Except.map] at h
    | ok p =>
      simp only [hb, Except.map, Except.ok.injEq, Prod.mk.injEq] at h
      have : p.2.length < _ := BaseType.read_length hb
      rwa [h.2] at this

theorem RefType.read_length {cs rest : List Char} {t : RefType}
    (h : read cs = .ok (t, rest)) : rest.length < cs.length := by
  unfold read at h
  split at h
  · cases h
  · rename_i r
    cases hc : ClassName.readTail r with
    | error e => simp [hc, Except.map] at h
    | ok p =>
      simp only [hc, Except.map, Except.ok.injEq, Prod.mk.injEq] at h
      have : p.2.length < _ := ClassName.readTail_length hc
      rw [h.2] at this
      exact Nat.lt_trans this (by simp)
  · rename_i r
    have h1 := readArray_length h
    have h2 := (List.dropWhile_suffix (fun c : Char => decide (c = '[')) (l := r)).length_le
    simp only [List.length_cons]
    omega
  · cases h

/-- A value type takes up at least one character, so a list of them ends. -/
theorem ValueType.read_length {cs rest : List Char} {t : ValueType}
    (h : read cs = .ok (t, rest)) : rest.length < cs.length := by
  unfold read at h
  split at h
  · cases h
  · rename_i c r
    split at h
    · cases h
      simp
    · cases hc : RefType.read (c :: r) with
      | error e => simp [hc, Except.map] at h
      | ok p =>
        simp only [hc, Except.map, Except.ok.injEq, Prod.mk.injEq] at h
        have : p.2.length < _ := RefType.read_length hc
        rwa [h.2] at this

namespace Signature

/-- Parameter types up to the closing parenthesis, which is taken too. -/
def readParameters (cs : List Char) : Except DescriptorError (List ValueType × List Char) :=
  match cs with
  | ')' :: rest => .ok ([], rest)
  | cs => match _h : ValueType.read cs with
    | .error e => .error e
    | .ok (t, rest) => (readParameters rest).map fun (ts, r) => (t :: ts, r)
termination_by cs.length
decreasing_by exact ValueType.read_length _h

def readReturn : DescriptorReader (Option ValueType)
  | 'V' :: rest => .ok (none, rest)
  | cs => (ValueType.read cs).map fun (t, r) => (some t, r)

def read : DescriptorReader Signature
  | '(' :: cs => do
    let (parameters, rest) ← readParameters cs
    let (returns, rest) ← readReturn rest
    pure (⟨parameters, returns⟩, rest)
  | _ => .error .notASignature

def parse (text : String) : Except DescriptorError Signature := DescriptorReader.whole read text

end Signature

end CodeWeaving
