import CodeWeaving.Proofs.Kinds.WovenCode
import CodeWeaving.Proofs.Machine.ViewMemory
import CodeWeaving.Proofs.Weaving.WovenInstructions

/-! Conversions as a whole: which there are, that their code works on nothing but the value, and
that a value that went in an object comes back out of it. -/
namespace CodeWeaving

open Code Machine

/-- Straight code that turns a value of one type on top of the stack into one of another, whatever
is below it, be it nothing, and names no locals. -/
structure Code.Converts (code : Code) (source target : ValueType) : Prop where
  plain : ∀ i ∈ code, i.isPlain = true
  stackOnly : ∀ i ∈ code, i.local? = none
  depths : code.Turns source.width target.width
  kinds : ∀ l, Retypes l code [source.kind] [target.kind]
  runs : ∀ {Ref : Type} (S : Surroundings Ref) (v : Value Ref), v.kind = source.kind →
    Yields (S.convert source target v) (fun v' => v'.kind = target.kind) ∧
    ∀ stack l, S.exec code ⟨v.slots ++ stack, l⟩ =
      (do
        let v' ← S.convert source target v
        pure ⟨v'.slots ++ stack, l⟩)

theorem ValueType.converts_of_convert? {source target : ValueType} {code : Code}
    (h : source.convert? target = some code) : code.Converts source target where
  plain := (turns_convert? h).isPlain
  stackOnly i hi := Instruction.local?_of_made (made_convert? h i hi)
  depths := turns_convert? h
  kinds _ := retypes_convert? h
  runs _ _ hv := ⟨Surroundings.yields_convert h hv, fun _ _ => Surroundings.exec_convert h hv⟩

namespace Machine

variable {Ref : Type} {S : Surroundings Ref}

/-- The values of a primitive type; the narrow ones are kept as integers. -/
inductive OfBase : Value Ref → BaseType → Prop
  | boolean (b : Bool) : OfBase (.int (if b then 1 else 0)) .boolean
  | byte (n : Int8) : OfBase (.int n.toInt32) .byte
  | short (n : Int16) : OfBase (.int n.toInt32) .short
  | char (n : UInt16) : OfBase (.int (.ofNat n.toNat)) .char
  | int (n : Int32) : OfBase (.int n) .int
  | long (n : Int64) : OfBase (.long n) .long
  | float (x : Float32) : OfBase (.float x) .float
  | double (x : Float) : OfBase (.double x) .double

theorem OfBase.kind {v : Value Ref} {b : BaseType} (h : OfBase v b) : v.kind = b.kind := by
  cases h <;> rfl

/-- What one can say of boxes and of the types of objects in a state of the surroundings. -/
structure BoxModel (S : Surroundings Ref) where
  /-- The object is a box of the type with the value in it. -/
  boxes : S.World → Value Ref → BaseType → Value Ref → Prop
  /-- The object is one of the type. -/
  fits : S.World → Value Ref → RefType → Prop

namespace BoxModel

variable {M : BoxModel S} {w w' : S.World} {x v : Value Ref} {t : ValueType}

/-- Unboxing inverts boxing, and a cast to a type that an object is of gives the object. -/
structure Lawful (M : BoxModel S) : Prop where
  box : ∀ w b v, OfBase v b →
    ∃ x w', S.answerValue (.call .static b.boxing [v]) w = some (x, w') ∧ M.boxes w' x b v
  fits : ∀ w b x v, M.boxes w x b v → M.fits w x (.object b.boxed)
  cast : ∀ w x r, M.fits w x r → ∃ w', S.answerValue (.cast r x) w = some (x, w') ∧
    ∀ b v, M.boxes w x b v → M.boxes w' x b v
  unbox : ∀ w b x v, M.boxes w x b v →
    ∃ w', S.answerValue (.call .virtual b.unboxing [x]) w = some (v, w')

/-- The value is one of the type. -/
def Typed (M : BoxModel S) (w : S.World) (v : Value Ref) : ValueType → Prop
  | .base b => OfBase v b
  | .ref r => v.kind = .reference ∧ M.fits w v r

/-- An object stands for a value of a type: as a box of it, or as itself. -/
def Stands (M : BoxModel S) (w : S.World) (x v : Value Ref) : ValueType → Prop
  | .base b => M.boxes w x b v
  | .ref r => x = v ∧ M.fits w v r

theorem Typed.kind (h : M.Typed w v t) : v.kind = t.kind := by
  cases t with
  | base b => exact OfBase.kind h
  | ref r => exact h.1

theorem Lawful.convert_to_object (hM : M.Lawful) (h : M.Typed w v t) : ∃ x w',
    S.convert t (.object .object) v w = some (x, w') ∧ x.kind = .reference ∧ M.Stands w' x v t := by
  cases t with
  | base b =>
    obtain ⟨x, w', hx, hboxes⟩ := hM.box w b v h
    exact ⟨x, w', hx, Surroundings.yields_callValue (m := b.boxing) rfl _ _ _ hx, hboxes⟩
  | ref r => exact ⟨v, w, rfl, h.1, rfl, h.2⟩

theorem Lawful.convert_from_object (hM : M.Lawful) (h : M.Stands w x v t) :
    ∃ w', S.convert (.object .object) t x w = some (v, w') := by
  cases t with
  | base b =>
    -- the cast before the unboxing is never left out: no box class is that of all objects
    have hclass : RefType.object .object ≠ .object b.boxed := by cases b <;> decide
    obtain ⟨w₁, hcast, hkeeps⟩ := hM.cast w x _ (hM.fits w b x v h)
    obtain ⟨w₂, hunbox⟩ := hM.unbox w₁ b x v (hkeeps b v h)
    refine ⟨w₂, bind_eq_some.2 ⟨x, w₁, ?_, hunbox⟩⟩
    rw [Surroundings.narrow, if_neg hclass, hcast]
  | ref r =>
    obtain ⟨rfl, hfits⟩ := h
    obtain ⟨w', hcast, -⟩ := hM.cast w x r hfits
    change ∃ w', (if r = .object .object then pure x else S.narrow (.object .object) r x) w = _
    split
    · exact ⟨w, rfl⟩
    · rename_i hr
      rw [Surroundings.narrow, if_neg (Ne.symm hr)]
      exact ⟨w', hcast⟩

/-- There and back again: a value made an object of and taken out of it is what it was. -/
theorem Lawful.exec_round_trip {there back : Code} (hM : M.Lawful) (hv : M.Typed w v t)
    (hthere : t.convert? (.object .object) = some there)
    (hback : (ValueType.object .object).convert? t = some back) (stack : List (Slot Ref))
    (l : Locals Ref) : ∃ w',
      S.exec (there ++ back) ⟨v.slots ++ stack, l⟩ w = some (⟨v.slots ++ stack, l⟩, w') := by
  obtain ⟨x, w₁, hx, hkind, hstands⟩ := hM.convert_to_object hv
  obtain ⟨w₂, hout⟩ := hM.convert_from_object hstands
  have hin : S.exec there ⟨v.slots ++ stack, l⟩ w = some (⟨x.slots ++ stack, l⟩, w₁) := by
    rw [Surroundings.exec_convert hthere hv.kind]
    exact bind_pure_eq_some.2 ⟨x, hx, rfl⟩
  refine ⟨w₂, ?_⟩
  rw [Surroundings.exec_append_of_some hin, Surroundings.exec_convert hback hkind]
  exact bind_pure_eq_some.2 ⟨v, hout, rfl⟩

end BoxModel

end Machine

/-- A conversion appends all of its code or fails and appends nothing, whatever there is before.
There is one just between convertible types, and its code turns a value of the one into a value of
the other without a look at anything else. There is one to an object from every type and one back,
and they give the value back where boxes do and objects are of their own types. -/
theorem ValueType.coerce_spec (source target : ValueType) :
    ((source.Convertible target ∧
        ∃ code, code.Converts source target ∧ Emits (source.coerceOnto target) code) ∨
      ¬ source.Convertible target ∧
        Refuses (source.coerceOnto target) (.typeMismatch (.inconvertible source target))) ∧
    ∃ there back, Emits (source.coerceOnto (.object .object)) there ∧
      Emits ((object .object).coerceOnto source) back ∧
      ∀ {Ref : Type} (S : Surroundings Ref) (M : BoxModel S), M.Lawful →
        ∀ w v, M.Typed w v source → ∀ stack l, ∃ w',
          S.exec (there ++ back) ⟨v.slots ++ stack, l⟩ w = some (⟨v.slots ++ stack, l⟩, w') := by
  obtain ⟨there, hthere⟩ := convertible_iff.1 (convertible_object source)
  obtain ⟨back, hback⟩ := convertible_iff.1 (object_convertible source)
  refine ⟨?_, there, back, emits_coerceOnto hthere, emits_coerceOnto hback,
    fun S M hM w v hv => hM.exec_round_trip hv hthere hback⟩
  rcases coerceOnto_allOrNothing source target with ⟨code, hsome, hemits⟩ | ⟨hnone, hrefuses⟩
  · exact .inl ⟨convertible_iff.2 ⟨code, hsome⟩, code, converts_of_convert? hsome, hemits⟩
  · refine .inr ⟨fun h => ?_, hrefuses⟩
    obtain ⟨code, hsome⟩ := convertible_iff.1 h
    cases hsome.symm.trans hnone

/-- What the memory of views and boxes says of boxes. -/
def Machine.Memory.boxModel : BoxModel Memory.surroundings where
  boxes w x b v := Memory.model.boxes w x b v
  fits _ v r := Memory.model.fits v r

theorem Machine.Memory.lawful_boxModel : Memory.boxModel.Lawful where
  box w b v hv := by
    obtain ⟨x, w', hx, hboxes, -⟩ := (Memory.lawful .object).box w v b hv.kind
    exact ⟨x, w', hx, hboxes⟩
  fits w b x v h := Memory.kind_of_boxed? h.1
  cast w x r h := by
    obtain ⟨w', hcast, hkeeps⟩ := (Memory.lawful .object).cast w x r h
    exact ⟨w', hcast, fun b v => (hkeeps x).boxes x b v⟩
  unbox w b x v h := by
    obtain ⟨w', hunbox, -⟩ := (Memory.lawful .object).unbox w x b v h
    exact ⟨w', hunbox⟩

/-- A narrow number goes in a box and comes out of it. -/
theorem ValueType.byte_comes_back : ∃ code,
    Emits (do (base .byte).coerceOnto (object .object); (object .object).coerceOnto (base .byte))
      code ∧
    ∃ w, Memory.surroundings.exec code ⟨[.value (.int (-7))], fun _ => none⟩ [] =
      some (⟨[.value (.int (-7))], fun _ => none⟩, w) := by
  obtain ⟨-, there, back, hthere, hback, hrun⟩ := coerce_spec (base .byte) (base .int)
  exact ⟨there ++ back, hthere.bind hback,
    hrun Memory.surroundings Memory.boxModel Memory.lawful_boxModel [] _ (.byte (-7)) [] _⟩

end CodeWeaving
