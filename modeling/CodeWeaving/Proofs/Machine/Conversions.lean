import CodeWeaving.Proofs.Machine.Execution
import CodeWeaving.Proofs.Weaving.Coercion

/-! What conversions between types do to a value: widening, boxing, unboxing and casts. -/
namespace CodeWeaving

/-- The method that wraps a value of the type. -/
def BaseType.boxing (b : BaseType) : MethodRef :=
  ⟨b.boxed, .valueOf, ⟨[.base b], some (.object b.boxed)⟩⟩

/-- The method that gives a wrapped value back. -/
def BaseType.unboxing (b : BaseType) : MethodRef := ⟨b.boxed, b.unboxName, ⟨[], some (.base b)⟩⟩

namespace Machine.Surroundings

variable {Ref : Type} {S : Surroundings Ref} {source target : ValueType} {code : Code}
  {v : Value Ref} {stack : List (Slot Ref)} {l : Locals Ref}

/-- An object as one of a class or array type, for which it is cast unless it is one already. -/
def narrow (S : Surroundings Ref) (source target : RefType) (v : Value Ref) :
    StateT S.World Option (Value Ref) :=
  if source = target then pure v else S.answerValue (.cast target v)

/-- A value of one type as a value of another. -/
def convert (S : Surroundings Ref) (source target : ValueType) (v : Value Ref) :
    StateT S.World Option (Value Ref) :=
  match source, target with
  | .base _, .base t => pure (v.widen t.kind)
  | .base b, .ref _ => S.answerValue (.call .static b.boxing [v])
  | .ref s, .base t => do
    let box ← S.narrow s (.object t.boxed) v
    S.answerValue (.call .virtual t.unboxing [box])
  | .ref s, .ref t => if t = .object .object then pure v else S.narrow s t v

theorem widen_kind (v : Value Ref) : v.widen v.kind = v := by cases v <;> rfl

/-- A conversion between primitives is no code within a kind and else one raw instruction. -/
theorem widen?_eq_some {b c : BaseType} (h : b.widen? c = some code) :
    (code = [] ∧ b.kind = c.kind) ∨
      ∃ r : RawInstruction, code = [.raw r] ∧ r.opcode ≠ Opcode.iinc ∧
        (Instruction.raw r).literal? = none ∧ widening? r.opcode = some (b.kind, c.kind) := by
  unfold BaseType.widen? at h
  cases b <;> cases c <;> simp [BaseType.kind] at h <;> subst h <;>
    first
    | exact .inl ⟨rfl, rfl⟩
    | exact .inr ⟨_, rfl, by decide, by decide, by decide⟩

theorem exec_widen {b c : BaseType} (h : b.widen? c = some code) (hv : v.kind = b.kind) :
    S.exec code ⟨v.slots ++ stack, l⟩ = pure ⟨(v.widen c.kind).slots ++ stack, l⟩ := by
  rcases widen?_eq_some h with ⟨rfl, hkind⟩ | ⟨r, rfl, hiinc, hliteral, hwiden⟩
  · rw [← hkind, ← hv, widen_kind]
    rfl
  · rw [exec_singleton]
    refine execute_of_go ?_
    simp [begin, beginRaw, hiinc, hliteral, hwiden, take_eq_some.2 ⟨hv, rfl⟩, Frame.push]

theorem execute_box {b : BaseType} (hv : v.kind = b.kind) :
    S.execute ⟨v.slots ++ stack, l⟩ b.box =
      (do
        let box ← S.answerValue (.call .static b.boxing [v])
        pure ⟨box.slots ++ stack, l⟩) := by
  have hkinds : [v].map Value.kind = callKinds .static b.boxing := by
    simp [hv, callKinds, InvokeKind.hasReceiver, BaseType.boxing, ValueType.kind]
  exact execute_invoke_value hkinds rfl

theorem execute_unbox {b : BaseType} (hv : v.kind = .reference) :
    S.execute ⟨v.slots ++ stack, l⟩ b.unbox =
      (do
        let v' ← S.answerValue (.call .virtual b.unboxing [v])
        pure ⟨v'.slots ++ stack, l⟩) := by
  have hkinds : [v].map Value.kind = callKinds .virtual b.unboxing := by
    simp [hv, callKinds, InvokeKind.hasReceiver, BaseType.unboxing]
  exact execute_invoke_value hkinds rfl

theorem yields_narrow {s t : RefType} (hv : v.kind = .reference) :
    Yields (S.narrow s t v) fun v' => v'.kind = .reference := by
  unfold narrow
  split
  · exact Yields.pure hv
  · exact yields_answerValue rfl

theorem exec_narrow {s t : RefType} (hv : v.kind = .reference) :
    S.exec (if s = t then [] else [.checkCast t]) ⟨v.slots ++ stack, l⟩ =
      (do
        let v' ← S.narrow s t v
        pure ⟨v'.slots ++ stack, l⟩) := by
  unfold narrow
  split
  · rw [pure_bind]
    rfl
  · rw [exec_singleton, execute_checkCast hv]

/-- A primitive that converts to another has a number of that kind afterwards. -/
theorem kind_widen {b c : BaseType} (h : b.widen? c = some code) (hv : v.kind = b.kind) :
    (v.widen c.kind).kind = c.kind := by
  rcases widen?_eq_some h with ⟨-, hkind⟩ | ⟨r, -, -, -, hwiden⟩
  · rw [← hkind, ← hv, widen_kind]
  · unfold widening? at hwiden
    cases v <;> grind [Value.kind, Value.widen]

theorem yields_convert (h : source.convert? target = some code) (hv : v.kind = source.kind) :
    Yields (S.convert source target v) fun v' => v'.kind = target.kind := by
  unfold ValueType.convert? at h
  split at h
  · rename_i b c
    refine Yields.pure ?_
    split at h
    · rename_i heq
      rw [← heq, ← show v.kind = b.kind from hv, widen_kind]
      exact hv
    · exact kind_widen h hv
  · rename_i b c
    exact yields_callValue (m := b.boxing) rfl
  · cases h
  · rename_i c b
    exact Yields.bind .trivial fun _ _ => yields_callValue (m := b.unboxing) rfl
  · cases h
  · rw [convert]
    split
    · exact Yields.pure hv
    · exact yields_narrow hv

/-- The code of a conversion does what the conversion does, on top of any stack. -/
theorem exec_convert (h : source.convert? target = some code) (hv : v.kind = source.kind) :
    S.exec code ⟨v.slots ++ stack, l⟩ =
      (do
        let v' ← S.convert source target v
        pure ⟨v'.slots ++ stack, l⟩) := by
  unfold ValueType.convert? at h
  split at h
  · rename_i b c
    rw [convert, pure_bind]
    split at h
    · rename_i heq
      cases h
      rw [← heq, ← show v.kind = b.kind from hv, widen_kind]
      rfl
    · exact exec_widen h hv
  · split at h
    · cases h
      rw [exec_singleton, convert, execute_box hv]
    · cases h
  · cases h
  · rename_i c b
    cases h
    have hbox : (if c = b.boxed then [] else [Instruction.checkCast (.object b.boxed)]) =
        if RefType.object c = .object b.boxed then [] else [.checkCast (.object b.boxed)] := by
      simp only [RefType.object.injEq]
    rw [convert, hbox, exec_append, exec_narrow hv, bind_assoc, bind_assoc]
    refine (yields_narrow hv).bind_congr fun box hkind => ?_
    rw [pure_bind, exec_singleton, execute_unbox hkind]
  · cases h
  · rename_i s t
    rw [convert]
    split at h
    · rename_i hsame
      cases h
      obtain rfl | rfl := hsame
      · rw [narrow, if_pos rfl, ite_self, pure_bind]
        rfl
      · rw [if_pos rfl, pure_bind]
        rfl
    · rename_i hdiff
      cases h
      rw [not_or] at hdiff
      rw [if_neg hdiff.2, ← exec_narrow hv, if_neg hdiff.1]

theorem execute_pushZero (t : ValueType) :
    S.execute ⟨stack, l⟩ t.pushZero = pure ⟨(Value.zero t.kind).slots ++ stack, l⟩ := by
  refine execute_of_go ?_
  rw [ValueType.pushZero, begin]
  cases t.kind <;> rfl

/-- The zero value of a result as an object, which is none for references and `void`. -/
def boxedZero (S : Surroundings Ref) : Option ValueType → StateT S.World Option (Value Ref)
  | some (.base b) => S.answerValue (.call .static b.boxing [.zero b.kind])
  | some (.ref _) | none => pure (.reference none)

theorem yields_boxedZero (t : Option ValueType) :
    Yields (S.boxedZero t) fun v => v.kind = .reference := by
  unfold boxedZero
  split
  · rename_i b
    exact yields_callValue (m := b.boxing) rfl
  · exact .pure rfl
  · exact .pure rfl

theorem exec_pushBoxedResult (t : Option ValueType) :
    S.exec (pushBoxedResult t) ⟨stack, l⟩ =
      (do
        let v ← S.boxedZero t
        pure ⟨v.slots ++ stack, l⟩) := by
  unfold pushBoxedResult boxedZero
  split
  · rename_i t
    cases t with
    | base b =>
      rw [ValueType.pushBoxedZero, exec_cons, execute_pushZero, pure_bind, exec_singleton]
      exact execute_box (Value.kind_zero b.kind)
    | ref r => rfl
  · rfl

end Machine.Surroundings

end CodeWeaving
