import CodeWeaving.Weaving.Coercion

/-! Conversions as what they append: all of their code, or none of it and an error. -/
namespace CodeWeaving

/-- The work appends just the code, whatever there is before. -/
def Code.Emits (x : InPlace Code Unit) (code : Code) : Prop :=
  ∀ before, x.Done before () (before ++ code)

/-- The work fails and appends nothing. -/
def Code.Refuses (x : InPlace Code Unit) (e : WeaveError) : Prop :=
  ∀ before, x.Failed before e before

namespace Code

variable {x y : InPlace Code Unit} {code code' : Code} {e : WeaveError} {P : Prop} [Decidable P]

theorem emits_pure : Emits (pure ()) [] := fun before =>
  InPlace.done_pure.2 ⟨rfl, (List.append_nil before).symm⟩

theorem emits_emit (code : Code) : Emits (emit code) code := fun _ => InPlace.done_update.2 rfl

theorem Emits.bind (h : Emits x code) (h' : Emits y code') :
    Emits (x >>= fun _ => y) (code ++ code') := by
  intro before
  rw [InPlace.done_bind_of_done (h before), ← List.append_assoc]
  exact h' (before ++ code)

theorem refuses_fail (e : WeaveError) : Refuses (InPlace.fail e) e := fun _ =>
  InPlace.failed_fail.2 ⟨rfl, rfl⟩

theorem emits_unless (hP : ¬ P) (h : Emits x code) :
    Emits (if P then (do InPlace.fail e; x) else x) code := fun before =>
  InPlace.done_unless.2 ⟨hP, h before⟩

theorem refuses_unless (hP : P) : Refuses (if P then (do InPlace.fail e; x) else x) e := fun _ =>
  InPlace.failed_unless.2 (.inl ⟨hP, rfl, rfl⟩)

theorem Emits.finish (h : Emits x code) : x.finish [] = .ok code := (h []).finish

theorem Refuses.finish (h : Refuses x e) : x.finish [] = .error e := (h []).finish

end Code

open Code

namespace ValueType

variable {source target : ValueType} {code : Code} {e : WeaveError}

/-- The code of a conversion, where there is one. -/
def convert? : ValueType → ValueType → Option Code
  | .base source, .base target => if source = target then some [] else source.widen? target
  | .base source, .ref (.object c) => if source.boxesTo c then some [source.box] else none
  | .base _, .ref _ => none
  | .ref (.object c), .base target =>
    some ((if c = target.boxed then [] else [.checkCast (.object target.boxed)]) ++ [target.unbox])
  | .ref _, .base _ => none
  | .ref source, .ref target =>
    if source = target ∨ target = .object .object then some [] else some [.checkCast target]

/-- A conversion appends all of its code, or there is none and it fails before it has appended
anything. -/
def AllOrNothing (source target : ValueType) : Prop :=
  (∃ code, source.convert? target = some code ∧ Emits (source.coerceOnto target) code) ∨
    source.convert? target = none ∧
      Refuses (source.coerceOnto target) (.typeMismatch (.inconvertible source target))

theorem allOrNothing_same (t : ValueType) : AllOrNothing t t := by
  refine .inl ⟨[], ?_, ?_⟩
  · cases t <;> simp [convert?]
  · unfold coerceOnto
    rw [if_pos rfl]
    exact emits_pure

theorem allOrNothing_widening {source target : BaseType} (h : source ≠ target) :
    AllOrNothing (.base source) (.base target) := by
  unfold AllOrNothing coerceOnto
  rw [convert?, if_neg h, if_neg fun heq => h (base.inj heq)]
  dsimp only
  cases source.widen? target with
  | some conversion => exact .inl ⟨conversion, rfl, emits_emit conversion⟩
  | none => exact .inr ⟨rfl, refuses_fail _⟩

theorem allOrNothing_boxing (source : BaseType) (c : ClassName) :
    AllOrNothing (.base source) (.ref (.object c)) := by
  unfold AllOrNothing
  rw [convert?]
  by_cases hbox : source.boxesTo c = true
  · rw [if_pos hbox]
    exact .inl ⟨_, rfl, emits_unless (by simp [hbox]) (emits_emit _)⟩
  · rw [if_neg hbox]
    exact .inr ⟨rfl, refuses_unless (by simp [hbox])⟩

theorem allOrNothing_unboxing (c : ClassName) (target : BaseType) :
    AllOrNothing (.ref (.object c)) (.base target) := by
  refine .inl ⟨_, rfl, ?_⟩
  change Emits (if c ≠ target.boxed then (do
    Code.emit [.checkCast (.object target.boxed)]
    Code.emit [target.unbox]) else Code.emit [target.unbox]) _
  by_cases hbox : c = target.boxed
  · rw [if_pos hbox, if_neg (not_not_intro hbox)]
    exact emits_emit _
  · rw [if_neg hbox, if_pos hbox]
    exact (emits_emit _).bind (emits_emit _)

theorem allOrNothing_cast {source target : RefType} (h : source ≠ target) :
    AllOrNothing (.ref source) (.ref target) := by
  unfold AllOrNothing
  rw [convert?, coerceOnto, if_neg fun heq => h (ref.inj heq)]
  by_cases hobject : target = .object .object
  · rw [if_pos hobject, if_pos (.inr hobject)]
    exact .inl ⟨_, rfl, emits_pure⟩
  · rw [if_neg hobject, if_neg (not_or_intro h hobject)]
    exact .inl ⟨_, rfl, emits_emit _⟩

theorem coerceOnto_allOrNothing (source target : ValueType) : AllOrNothing source target := by
  by_cases hsame : source = target
  · exact hsame ▸ allOrNothing_same source
  rcases source with source | source <;> rcases target with target | target
  · exact allOrNothing_widening fun heq => hsame (congrArg base heq)
  · cases target with
    | object c => exact allOrNothing_boxing source c
    | objectArray | primitiveArray => exact .inr ⟨rfl, refuses_fail _⟩
  · cases source with
    | object c => exact allOrNothing_unboxing c target
    | objectArray | primitiveArray => exact .inr ⟨rfl, refuses_fail _⟩
  · exact allOrNothing_cast fun heq => hsame (congrArg ref heq)

theorem emits_coerceOnto (h : source.convert? target = some code) :
    Emits (source.coerceOnto target) code := by
  rcases coerceOnto_allOrNothing source target with ⟨conversion, hsome, hemits⟩ | ⟨hnone, -⟩
  · cases h.symm.trans hsome
    exact hemits
  · cases h.symm.trans hnone

theorem coerce_eq_ok : source.coerce target = .ok code ↔ source.convert? target = some code := by
  rcases coerceOnto_allOrNothing source target with ⟨conversion, hsome, hemits⟩ | ⟨hnone, hrefuses⟩
  · rw [coerce, hemits.finish, hsome, Except.ok.injEq, Option.some.injEq]
  · rw [coerce, hrefuses.finish, hnone]
    simp

theorem coerce_eq_error : source.coerce target = .error e ↔
    source.convert? target = none ∧ e = .typeMismatch (.inconvertible source target) := by
  rcases coerceOnto_allOrNothing source target with ⟨conversion, hsome, hemits⟩ | ⟨hnone, hrefuses⟩
  · rw [coerce, hemits.finish, hsome]
    simp
  · rw [coerce, hrefuses.finish, Except.error.injEq, eq_comm, and_iff_right hnone]

/-- The types between which there is a conversion. -/
inductive Convertible : ValueType → ValueType → Prop
  | same (t : ValueType) : Convertible t t
  | toInt {b : BaseType} (h : b.kind = .int) : Convertible (.base b) (.base .int)
  | intWidened {b c : BaseType} (h : b.kind = .int) (hb : b ≠ .boolean)
      (hc : c = .long ∨ c = .float ∨ c = .double) : Convertible (.base b) (.base c)
  | longWidened {c : BaseType} (hc : c = .float ∨ c = .double) :
      Convertible (.base .long) (.base c)
  | floatWidened : Convertible (.base .float) (.base .double)
  | toObject (b : BaseType) : Convertible (.base b) (.object .object)
  | toBox (b : BaseType) : Convertible (.base b) (.object b.boxed)
  | toNumber {b : BaseType} (h : b.isNumeric = true) : Convertible (.base b) (.object .number)
  | fromObject (c : ClassName) (b : BaseType) : Convertible (.object c) (.base b)
  | references (s t : RefType) : Convertible (.ref s) (.ref t)

theorem convertible_of_widen? {source target : BaseType}
    (h : (source.widen? target).isSome = true) : Convertible (.base source) (.base target) := by
  have hcases : source.kind = .int ∧ target = .int ∨
      (source.kind = .int ∧ source ≠ .boolean ∧
        (target = .long ∨ target = .float ∨ target = .double)) ∨
      (source = .long ∧ (target = .float ∨ target = .double)) ∨
      source = .float ∧ target = .double := by
    revert h
    cases source <;> cases target <;> decide
  rcases hcases with ⟨hint, rfl⟩ | ⟨hint, hboolean, htarget⟩ | ⟨rfl, htarget⟩ | ⟨rfl, rfl⟩
  · exact .toInt hint
  · exact .intWidened hint hboolean htarget
  · exact .longWidened htarget
  · exact .floatWidened

theorem convertible_of_convert? (h : source.convert? target = some code) :
    Convertible source target := by
  unfold convert? at h
  split at h
  · split at h
    · rename_i heq
      exact heq ▸ .same _
    · exact convertible_of_widen? (Option.isSome_of_eq_some h)
  · split at h
    · rename_i b c hbox
      simp only [BaseType.boxesTo, Bool.or_eq_true, Bool.and_eq_true, decide_eq_true_eq] at hbox
      rcases hbox with (rfl | rfl) | ⟨rfl, hnumeric⟩
      · exact .toObject b
      · exact .toBox b
      · exact .toNumber hnumeric
    · cases h
  · cases h
  · exact .fromObject _ _
  · cases h
  · exact .references _ _

theorem Convertible.isSome_convert? (h : Convertible source target) :
    (source.convert? target).isSome = true := by
  cases h with
  | same => cases source <;> simp [convert?]
  | @toInt b h =>
    cases b <;>
      first
      | rfl
      | cases h
  | @intWidened b c h hb hc =>
    rcases hc with rfl | rfl | rfl <;> cases b <;>
      first
      | rfl
      | exact (hb rfl).elim
      | cases h
  | longWidened hc => rcases hc with rfl | rfl <;> rfl
  | toBox | toNumber => simp [object, convert?, BaseType.boxesTo, *]
  | references s t =>
    rw [convert?]
    split <;> rfl
  | floatWidened | toObject | fromObject => rfl

theorem convertible_iff :
    Convertible source target ↔ ∃ code, source.convert? target = some code :=
  ⟨fun h => Option.isSome_iff_exists.1 h.isSome_convert?, fun ⟨_, h⟩ => convertible_of_convert? h⟩

theorem convertible_object (t : ValueType) : Convertible t (object .object) := by
  cases t with
  | base b => exact .toObject b
  | ref r => exact .references r _

theorem object_convertible (t : ValueType) : Convertible (object .object) t := by
  cases t with
  | base b => exact .fromObject _ b
  | ref r => exact .references _ r

end ValueType

end CodeWeaving
