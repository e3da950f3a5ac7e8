import CodeWeaving.Proofs.Machine.Views

/-! A memory of views and boxes, in which they do what is asked of them. -/
namespace CodeWeaving.Machine

inductive Cell where
  | view (contents : Int32 → Option (Value Nat))
  | box (v : Value Nat)

/-- Objects, each named by its place. -/
abbrev Memory := List Cell

namespace Memory

variable {w : Memory} {o x v : Value Nat} {c : Int32 → Option (Value Nat)} {cell : Cell}
  {name : MemberName} {operands : List (Value Nat)}

def cell? (w : Memory) : Value Nat → Option Cell
  | .reference (some n) => w[n]?
  | _ => none

def contents? (w : Memory) (o : Value Nat) : Option (Int32 → Option (Value Nat)) :=
  match w.cell? o with
  | some (.view c) => some c
  | _ => none

def boxed? (w : Memory) (o : Value Nat) : Option (Value Nat) :=
  match w.cell? o with
  | some (.box v) => some v
  | _ => none

/-- The memory with other contents in a view. -/
def put (w : Memory) (o : Value Nat) (c : Int32 → Option (Value Nat)) : Memory :=
  match o with
  | .reference (some n) => w.set n (.view c)
  | _ => w

/-- A new object comes behind the others. -/
def add (w : Memory) (cell : Cell) : Value Nat × Memory :=
  (.reference (some w.length), w ++ [cell])

/-- Room for a number of values, all null at first. -/
def room (n : Int32) : Int32 → Option (Value Nat) := fun i =>
  if 0 ≤ i ∧ i < n then some (.reference none) else none

/-- What a method returns, and the memory after it. Methods of other names give a box's value back
and do nothing else. -/
def call (w : Memory) (name : MemberName) (operands : List (Value Nat)) :
    Option (Option (Value Nat) × Memory) :=
  if name = .init then
    match operands with
    | [o, .int n] => some (none, w.put o (room n))
    | _ => some (none, w)
  else if name = .set then
    match operands with
    | [o, .int i, x] => (w.contents? o).map fun c => (none, w.put o (Function.update c i (some x)))
    | _ => none
  else if name = .get then
    match operands with
    | [o, .int i] => do
      let c ← w.contents? o
      let x ← c i
      pure (some x, w)
    | _ => none
  else if name = .valueOf then
    match operands with
    | [v] => some (some (w.add (.box v)).1, (w.add (.box v)).2)
    | _ => none
  else
    match operands with
    | [o] => some (w.boxed? o, w)
    | _ => some (none, w)

/-- Casts of objects succeed. Fields, texts and raw instructions have no answer. -/
def surroundings : Surroundings Nat where
  World := Memory
  answer q w := match q with
    | .call _ m operands => do
      let (v, w) ← w.call m.name operands
      if v.map Value.kind = m.signature.returnKind then pure (pushed v, w) else none
    | .allocate _ => some ((w.add (.view fun _ => none)).1.slots, (w.add (.view fun _ => none)).2)
    | .cast _ v => if v.kind = .reference then some (v.slots, w) else none
    | .access .. | .text _ | .raw .. => none
  admits {q w reply w'} h := by
    cases q with
    | call kind m operands =>
      simp only [Option.bind_eq_bind, Option.bind_eq_some_iff, Prod.exists] at h
      obtain ⟨v, w, -, h⟩ := h
      split at h
      · rename_i hkind
        cases h
        rw [Request.Admits, ← hkind]
        cases v with
        | none => rfl
        | some v => exact ⟨v, rfl, rfl⟩
      · cases h
    | allocate cls =>
      cases h
      exact ⟨_, rfl, rfl⟩
    | cast type v =>
      dsimp only at h
      split at h
      · rename_i hkind
        cases h
        exact ⟨v, hkind, rfl⟩
      · cases h
    | access | text | raw => cases h

theorem answer_call {kind : InvokeKind} {m : MethodRef} {v : Option (Value Nat)} {w' : Memory}
    (h : w.call m.name operands = some (v, w')) (hv : v.map Value.kind = m.signature.returnKind) :
    surroundings.answer (.call kind m operands) w = some (pushed v, w') := by
  simp only [surroundings, h, Option.bind_eq_bind, Option.bind_some, if_pos hv]
  rfl

theorem answerValue_eq {q : Request Nat} {w w' : Memory}
    (h : surroundings.answer q w = some (v.slots, w')) :
    surroundings.answerValue q w = some (v, w') := by
  refine bind_eq_some.2 ⟨v.slots, w', h, ?_⟩
  rw [value?_slots]
  rfl

theorem answerValue_call {kind : InvokeKind} {m : MethodRef} {w' : Memory}
    (h : w.call m.name operands = some (some v, w')) (hv : some v.kind = m.signature.returnKind) :
    surroundings.answerValue (.call kind m operands) w = some (v, w') :=
  answerValue_eq (answer_call h hv)

theorem cell?_add_of_some {d : Cell} (h : w.cell? o = some d) :
    (w.add cell).2.cell? o = some d := by
  unfold cell? at h ⊢
  split at h
  · exact (List.getElem?_append_left (List.getElem?_eq_some_iff.1 h).1).trans h
  · cases h

theorem cell?_add : (w.add cell).2.cell? (w.add cell).1 = some cell := by
  simp [cell?, add]

theorem contents?_add_box : (w.add (.box v)).2.contents? o = w.contents? o := by
  unfold contents? cell? add
  cases o with
  | reference object =>
    cases object with
    | none => rfl
    | some n =>
      dsimp only
      rcases Nat.lt_or_ge n w.length with hlt | hge
      · rw [List.getElem?_append_left hlt]
      · rw [List.getElem?_append_right hge, List.getElem?_eq_none hge]
        cases n - w.length <;> rfl
  | _ => rfl

theorem boxed?_add (h : w.boxed? o = some v) : (w.add cell).2.boxed? o = some v := by
  unfold boxed? at h ⊢
  split at h
  · rename_i hcell
    rw [cell?_add_of_some hcell]
    exact h
  · cases h

theorem boxed?_add_box : (w.add (.box v)).2.boxed? (w.add (.box v)).1 = some v := by
  rw [boxed?, cell?_add]

theorem contents?_put {d : Cell} (h : w.cell? o = some d) : (w.put o c).contents? o = some c := by
  unfold cell? at h
  split at h
  · rename_i n
    have hlt := (List.getElem?_eq_some_iff.1 h).1
    simp [put, contents?, cell?, hlt]
  · cases h

theorem boxed?_put {c' : Int32 → Option (Value Nat)} (ho : w.contents? o = some c')
    (h : w.boxed? x = some v) : (w.put o c).boxed? x = some v := by
  unfold boxed? contents? cell? put at *
  grind

/-- A box is one of every type that its value has the kind of, and an object one of every class. -/
def model : ViewModel surroundings where
  contents := contents?
  boxes w x b v := boxed? w x = some v ∧ v.kind = b.kind
  fits v _ := v.kind = .reference

theorem keeps_self : model.Keeps o w w := ⟨rfl, fun _ _ _ h => h⟩

theorem kind_of_boxed? (h : w.boxed? o = some v) : o.kind = .reference := by
  cases o with
  | reference => rfl
  | _ => cases h

theorem lawful (view : ClassName) : model.Lawful view where
  create w n _ := by
    refine ⟨_, _, _, room n, answerValue_eq (q := .allocate view) rfl,
      answer_call (v := none) rfl rfl, contents?_put cell?_add, fun i hlow hhigh => ?_⟩
    simp [room, hlow, hhigh]
  set w o c i x hc _ _ := by
    have hc : w.contents? o = some c := hc
    obtain ⟨d, hd⟩ : ∃ d, w.cell? o = some d := by
      unfold contents? at hc
      split at hc
      · exact ⟨_, ‹_›⟩
      · cases hc
    refine ⟨w.put o (Function.update c i (some x)), answer_call (v := none) ?_ rfl,
      contents?_put hd, fun y b v hy => ⟨boxed?_put hc hy.1, hy.2⟩⟩
    change (w.contents? o).map _ = _
    rw [hc]
    rfl
  get w o c i x hc hx hkind := by
    refine ⟨w, answerValue_call ?_ (congrArg some hkind), keeps_self⟩
    change (w.contents? o).bind _ = _
    rw [show w.contents? o = some c from hc, Option.bind_some, hx]
    rfl
  box w v b hv := by
    exact ⟨_, _, answerValue_call rfl rfl, ⟨boxed?_add_box, hv⟩,
      fun o => ⟨contents?_add_box, fun y b v hy => ⟨boxed?_add hy.1, hy.2⟩⟩⟩
  asBox w x b v h :=
    ⟨w, answerValue_eq (if_pos (kind_of_boxed? h.1)), fun _ => keeps_self⟩
  unbox w x b v h := by
    refine ⟨w, answerValue_call ?_ (congrArg some h.2), fun _ => keeps_self⟩
    have hname : b.unboxName ≠ .init ∧ b.unboxName ≠ .set ∧ b.unboxName ≠ .get ∧
        b.unboxName ≠ .valueOf := by
      cases b <;> decide
    simp only [call, BaseType.unboxing, hname, if_false, h.1]
  cast w v t h := ⟨w, answerValue_eq (if_pos h), fun _ => keeps_self⟩

/-- A static handler of a name that means nothing here does nothing. -/
theorem leavesViews {h : Handler} (hstatic : h.isStatic = true) (hreturns : h.returns = none)
    (hname : h.reference.name ≠ .init ∧ h.reference.name ≠ .set ∧ h.reference.name ≠ .get ∧
      h.reference.name ≠ .valueOf) : model.LeavesViews h := by
  intro (w : Memory) o c (hc : w.contents? o = some c)
  have hboxed : w.boxed? o = none := by
    unfold contents? at hc
    unfold boxed?
    split at hc <;> simp_all
  have hcall : w.call h.reference.name [o] = some (none, w) := by
    simp only [call, hname, if_false, hboxed]
  have hreturn : (none : Option ValueKind) = h.reference.method.signature.returnKind := by
    rw [Signature.returnKind, show h.reference.method.signature.returns = none from hreturns]
    rfl
  refine ⟨none, w, bind_eq_some.2 ⟨[], w, ?_, bind_eq_some.2 ⟨[o], w, rfl, ?_⟩⟩, keeps_self⟩
  · rw [Surroundings.receiver, if_pos hstatic]
    rfl
  · have hanswer : surroundings.answer (.call .static h.reference.method [o]) w =
        some (pushed none, w) := answer_call hcall hreturn
    rw [if_pos hstatic, List.nil_append, Surroundings.call]
    change (surroundings.answer _ w).bind _ = _
    rw [hanswer]
    rfl

end Memory

end CodeWeaving.Machine
