/-! Names of members and classes, and what makes a text one. -/
namespace CodeWeaving

/-- Why a text is not a name. -/
inductive NameError where
  | illegalCharacter (text : String)
  | emptyMember
  | strayBrackets (text : String)
  | emptyClass
  deriving DecidableEq, Repr

def NameError.message : NameError → String
  | .illegalCharacter text => s!"Unqualified name '{text}' contains an illegal character"
  | .emptyMember => "Unqualified name '' is empty"
  | .strayBrackets text =>
    s!"Unqualified name '{text}' uses angle brackets but is not special"
  | .emptyClass => "Binary name '' is empty"

namespace MemberName

/-- Characters that part names from their surroundings, so no name holds one. -/
def isSeparator (c : Char) : Bool := c = '.' || c = ';' || c = '[' || c = '/'

def isBracket (c : Char) : Bool := c = '<' || c = '>'

/-- The only names with angle brackets: instance and class initialisers. -/
def specials : List (List Char) := ["<init>".toList, "<clinit>".toList]

def Valid (cs : List Char) : Prop :=
  cs.any isSeparator = false ∧ cs ≠ [] ∧ (cs.any isBracket = false ∨ cs ∈ specials)

instance (cs : List Char) : Decidable (Valid cs) := inferInstanceAs (Decidable (_ ∧ _ ∧ (_ ∨ _)))

/-- The first rule a text breaks; separators are looked for before emptiness. -/
def fault? (cs : List Char) : Option NameError :=
  if cs.any isSeparator = true then some (.illegalCharacter (String.ofList cs))
  else if cs = [] then some .emptyMember
  else if cs.any isBracket = true ∧ cs ∉ specials then some (.strayBrackets (String.ofList cs))
  else none

theorem fault?_eq_none_iff {cs : List Char} : fault? cs = none ↔ Valid cs := by
  unfold fault? Valid
  by_cases hs : cs.any isSeparator = true
  · simp [hs]
  · by_cases he : cs = []
    · simp [he]
    · by_cases hb : cs.any isBracket = true ∧ cs ∉ specials
      · simp [hs, he, hb]
      · rw [if_neg hs, if_neg he, if_neg hb]
        refine ⟨fun _ => ⟨Bool.eq_false_iff.2 hs, he, ?_⟩, fun _ => rfl⟩
        by_cases hm : cs ∈ specials
        · exact Or.inr hm
        · exact Or.inl (Bool.eq_false_iff.2 fun h => hb ⟨h, hm⟩)

end MemberName

/-- Name of a method or field, or one segment of a class name. -/
structure MemberName where
  text : String
  valid : MemberName.Valid text.toList
  deriving DecidableEq

namespace MemberName

def ofString? (text : String) : Except NameError MemberName :=
  match h : fault? text.toList with
  | none => .ok ⟨text, fault?_eq_none_iff.1 h⟩
  | some e => .error e

def init : MemberName := ⟨"<init>", by decide⟩
def valueOf : MemberName := ⟨"valueOf", by decide⟩
def isCancelled : MemberName := ⟨"isCancelled", by decide⟩
def getReturnValue : MemberName := ⟨"getReturnValue", by decide⟩
def get : MemberName := ⟨"get", by decide⟩
def set : MemberName := ⟨"set", by decide⟩
def byteValue : MemberName := ⟨"byteValue", by decide⟩
def charValue : MemberName := ⟨"charValue", by decide⟩
def doubleValue : MemberName := ⟨"doubleValue", by decide⟩
def floatValue : MemberName := ⟨"floatValue", by decide⟩
def intValue : MemberName := ⟨"intValue", by decide⟩
def longValue : MemberName := ⟨"longValue", by decide⟩
def shortValue : MemberName := ⟨"shortValue", by decide⟩
def booleanValue : MemberName := ⟨"booleanValue", by decide⟩

end MemberName

namespace ClassName

/-- The stretches between slashes; one more than there are slashes. -/
def segments : List Char → List (List Char)
  | [] => [[]]
  | c :: cs =>
    if c = '/' then [] :: segments cs
    else match segments cs with
      | [] => [[c]]
      | s :: rest => (c :: s) :: rest

def Valid (cs : List Char) : Prop := ∀ s ∈ segments cs, MemberName.Valid s

instance (cs : List Char) : Decidable (Valid cs) := inferInstanceAs (Decidable (∀ _ ∈ _, _))

/-- The fault of the first segment that has one; the empty text has a fault of its own. -/
def fault? (cs : List Char) : Option NameError :=
  if cs = [] then some .emptyClass else (segments cs).findSome? MemberName.fault?

theorem fault?_eq_none_iff {cs : List Char} : fault? cs = none ↔ Valid cs := by
  unfold fault? Valid
  by_cases h : cs = []
  · subst h
    simp [segments, MemberName.Valid]
  · simp only [h, ↓reduceIte, List.findSome?_eq_none_iff, MemberName.fault?_eq_none_iff]

end ClassName

/-- Name of a class, its packages included: `com/example/Foo`. -/
structure ClassName where
  text : String
  valid : ClassName.Valid text.toList
  deriving DecidableEq

namespace ClassName

def ofString? (text : String) : Except NameError ClassName :=
  match h : fault? text.toList with
  | none => .ok ⟨text, fault?_eq_none_iff.1 h⟩
  | some e => .error e

/-- The segment after the last slash. -/
def simple (name : ClassName) : String :=
  String.ofList (name.text.toList.reverse.takeWhile (· ≠ '/')).reverse

def object : ClassName := ⟨"java/lang/Object", by decide⟩
def string : ClassName := ⟨"java/lang/String", by decide⟩
def number : ClassName := ⟨"java/lang/Number", by decide⟩
def byte : ClassName := ⟨"java/lang/Byte", by decide⟩
def character : ClassName := ⟨"java/lang/Character", by decide⟩
def double : ClassName := ⟨"java/lang/Double", by decide⟩
def float : ClassName := ⟨"java/lang/Float", by decide⟩
def integer : ClassName := ⟨"java/lang/Integer", by decide⟩
def long : ClassName := ⟨"java/lang/Long", by decide⟩
def short : ClassName := ⟨"java/lang/Short", by decide⟩
def boolean : ClassName := ⟨"java/lang/Boolean", by decide⟩

end ClassName

end CodeWeaving
