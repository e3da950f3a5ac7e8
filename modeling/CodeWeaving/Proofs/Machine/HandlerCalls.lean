import CodeWeaving.Proofs.Machine.Conversions
import CodeWeaving.Proofs.Weaving.FreshSlots

/-! What woven code does around a handler: operands go to slots and come back converted, and the
handler is called on them, on an instance of its own if it needs one. -/
namespace CodeWeaving

open Machine

namespace Spill

variable {Ref : Type} {s : Spill} {values : List (Value Ref)} {l l' : Locals Ref} {low high : Nat}

/-- The values are in the slots, each of the kind of its type. -/
def Held (l : Locals Ref) (s : Spill) (values : List (Value Ref)) : Prop :=
  List.Forall₂ (fun slot v => v.kind = slot.2.kind ∧ l.Holds slot.1.toNat v) s values

/-- The locals once values are in the slots. -/
def filled (l : Locals Ref) : Spill → List (Value Ref) → Locals Ref
  | (slot, _) :: s, v :: values => (filled l s values).store slot.toNat v
  | _, _ => l

theorem agree_filled (h : Within low high s) : Locals.Agree low l (filled l s values) := by
  induction s generalizing low values with
  | nil => exact .refl
  | cons x s ih =>
    cases values with
    | nil => exact .refl
    | cons v values =>
      have hrest : Locals.Agree low l (filled l s values) :=
        fun k hk => ih h.2 k (hk.trans_le (h.1.trans (Nat.le_add_right _ _)))
      exact hrest.trans (Locals.agree_store h.1)

/-- The values stay while the slots between the numbers do. -/
theorem Held.congr (h : Held l s values) (hs : Within low high s)
    (hl : ∀ k, low ≤ k → k < high → l' k = l k) : Held l' s values := by
  induction h generalizing low with
  | nil => exact .nil
  | @cons x v s values hv _ ih =>
    have hle : x.1.toNat + x.2.width ≤ high := Within.le hs.2
    refine .cons ⟨hv.1, hv.2.congr fun k hlow hhigh => hl k (hs.1.trans hlow) ?_⟩
      (ih hs.2 fun k hlow => hl k ?_)
    · rw [hv.1] at hhigh
      exact hhigh.trans_le hle
    · exact hs.1.trans ((Nat.le_add_right _ _).trans hlow)

theorem held_filled (hs : Within low high s)
    (hkinds : values.map Value.kind = s.map fun x => x.2.kind) :
    Held (filled l s values) s values := by
  induction s generalizing low values with
  | nil =>
    rw [List.map_eq_nil_iff.1 hkinds]
    exact .nil
  | cons x s ih =>
    obtain ⟨slot, t⟩ := x
    cases values with
    | nil => cases hkinds
    | cons v values =>
      rw [List.map_cons, List.map_cons, List.cons.injEq] at hkinds
      refine .cons ⟨hkinds.1, Locals.holds_store⟩
        ((ih hs.2 hkinds.2).congr hs.2 fun k hk _ => Locals.store_of_outside (.inr ?_))
      rwa [hkinds.1]

end Spill

namespace Machine.Surroundings

variable {Ref : Type} {S : Surroundings Ref} {stack : List (Slot Ref)} {l : Locals Ref}
  {code arguments : Code} {values : List (Value Ref)} {s : Spill} {targets : List ValueType}

theorem exec_store (hkinds : values.map Value.kind = s.map fun x => x.2.kind) :
    S.exec s.store ⟨stacked values ++ stack, l⟩ = pure ⟨stack, s.filled l values⟩ := by
  induction s generalizing values stack with
  | nil =>
    rw [List.map_eq_nil_iff.1 hkinds]
    rfl
  | cons x s ih =>
    obtain ⟨slot, t⟩ := x
    cases values with
    | nil => cases hkinds
    | cons v values =>
      rw [List.map_cons, List.map_cons, List.cons.injEq] at hkinds
      have hstore : Spill.store ((slot, t) :: s) = Spill.store s ++ [.storeLocal slot v.kind] := by
        simp [Spill.store, hkinds.1]
      rw [hstore, exec_append, stacked, List.append_assoc, ih hkinds.2, pure_bind, exec_singleton,
        execute_storeLocal, Spill.filled]

/-- Values of some types, one after another as values of others. -/
def convertAll (S : Surroundings Ref) : List (ValueType × Value Ref) → List ValueType →
    StateT S.World Option (List (Value Ref))
  | (t, v) :: values, target :: targets => do
    let v ← S.convert t target v
    let rest ← S.convertAll values targets
    pure (v :: rest)
  | _, _ => pure []

/-- A value in a slot is loaded as what it is converted to. -/
theorem exec_loadAs_single {slot : UInt16} {t target : ValueType}
    (h : t.coerce target = .ok code) (hv : v.kind = t.kind) (hl : l.Holds slot.toNat v) :
    S.exec (.loadLocal slot t.kind :: code) ⟨stack, l⟩ =
      (do
        let v ← S.convert t target v
        pure ⟨v.slots ++ stack, l⟩) := by
  rw [exec_cons, ← hv, execute_loadLocal hl, pure_bind,
    exec_convert (ValueType.coerce_eq_ok.1 h) hv]

/-- Values in slots are loaded as what they are converted to. -/
theorem exec_loadAs (h : s.loadAs targets = .ok code) (hlen : s.length = targets.length)
    (hheld : s.Held l values) :
    S.exec code ⟨stack, l⟩ =
      (do
        let converted ← S.convertAll ((s.map Prod.snd).zip values) targets
        pure ⟨stacked converted ++ stack, l⟩) := by
  induction hheld generalizing targets code stack with
  | nil =>
    obtain rfl := List.length_eq_zero_iff.1 hlen.symm
    cases h
    rfl
  | @cons x v s values hv _ ih =>
    obtain ⟨slot, t⟩ := x
    cases targets with
    | nil => cases hlen
    | cons target targets =>
      simp only [Spill.loadAs, bind_eq_ok] at h
      obtain ⟨conversion, hconversion, rest, hrest, h⟩ := h
      cases h
      simp only [exec_append, exec_loadAs_single hconversion hv.1 hv.2, List.map_cons,
        List.zip_cons_cons, convertAll, bind_assoc, pure_bind,
        ih hrest (Nat.succ.inj hlen), stacked, List.append_assoc]

theorem yields_convertAll (h : s.loadAs targets = .ok code) (hlen : s.length = targets.length)
    (hheld : s.Held l values) :
    Yields (S.convertAll ((s.map Prod.snd).zip values) targets) fun converted =>
      converted.map Value.kind = targets.map ValueType.kind := by
  induction hheld generalizing targets code with
  | nil =>
    obtain rfl := List.length_eq_zero_iff.1 hlen.symm
    exact .pure rfl
  | @cons x v s values hv _ ih =>
    obtain ⟨slot, t⟩ := x
    cases targets with
    | nil => cases hlen
    | cons target targets =>
      simp only [Spill.loadAs, bind_eq_ok] at h
      obtain ⟨conversion, hconversion, rest, hrest, -⟩ := h
      refine .bind (yields_convert (ValueType.coerce_eq_ok.1 hconversion) hv.1) fun v hv => ?_
      refine .bind (ih hrest (Nat.succ.inj hlen)) fun converted hconverted => .pure ?_
      rw [List.map_cons, List.map_cons, hv, hconverted]

section Handlers

variable {h : Handler} {v : Option (Value Ref)}

/-- What the handler is called on: a new instance, or nothing for a static one. -/
def receiver (S : Surroundings Ref) (h : Handler) : StateT S.World Option (List (Value Ref)) :=
  if h.isStatic then pure []
  else do
    let object ← S.answerValue (.allocate h.reference.owner)
    let _ ← S.answer (.call .special ⟨h.reference.owner, .init, ⟨[], none⟩⟩ [object])
    pure [object]

/-- A call of the handler on what it is given, for what it returns. -/
def callHandler (S : Surroundings Ref) (h : Handler)
    (given : StateT S.World Option (List (Value Ref))) :
    StateT S.World Option (Option (Value Ref)) := do
  let receiver ← S.receiver h
  let operands ← given
  S.call (if h.isStatic then .static else .virtual) h.reference.method (receiver ++ operands)

theorem yields_receiver : Yields (S.receiver h) fun object =>
    object.map Value.kind = if h.isStatic then [] else [.reference] := by
  unfold receiver
  split
  · exact .pure rfl
  · refine .bind (yields_answerValue (k := .reference) rfl) fun object hobject => ?_
    refine .bind .trivial fun _ _ => .pure ?_
    rw [List.map_singleton, hobject]

theorem exec_new (c : ClassName) : S.exec [.new c, .dup] ⟨stack, l⟩ =
    (do
      let object ← S.answerValue (.allocate c)
      pure ⟨object.slots ++ (object.slots ++ stack), l⟩) := by
  rw [exec_cons, execute_of_ask_value (k := .reference) (q := .allocate c) rfl rfl, bind_assoc]
  refine (yields_answerValue (k := .reference) rfl).bind_congr fun object hobject => ?_
  rw [pure_bind, exec_singleton]
  cases object <;> cases hobject
  rfl

theorem exec_instantiate : S.exec h.instantiate ⟨stack, l⟩ =
    (do
      let object ← S.receiver h
      pure ⟨stacked object ++ stack, l⟩) := by
  unfold Handler.instantiate receiver
  split
  · rw [pure_bind]
    rfl
  · change S.exec ([.new h.reference.owner, .dup] ++ [_]) _ = _
    rw [exec_append, exec_new, bind_assoc, bind_assoc]
    refine (yields_answerValue (k := .reference) rfl).bind_congr fun object hobject => ?_
    have hoperands : object.slots = stacked [object] := (List.nil_append _).symm
    rw [pure_bind, bind_assoc, exec_singleton, hoperands, execute_invoke_nothing _ rfl]
    · simp only [pure_bind]
    · rw [List.map_singleton, hobject]
      rfl

theorem yields_callHandler {given : StateT S.World Option (List (Value Ref))} :
    Yields (S.callHandler h given) fun v => v.map Value.kind = h.returns.map ValueType.kind :=
  .bind .trivial fun _ _ => .bind .trivial fun _ _ => yields_call

/-- The handler is called on what code leaves above the instance. -/
theorem exec_callHandler {given : StateT S.World Option (List (Value Ref))}
    (stack : List (Slot Ref))
    (hgiven : Yields given fun operands =>
      operands.map Value.kind = h.parameters.map ValueType.kind)
    (harguments : ∀ stack, S.exec arguments ⟨stack, l⟩ =
      (do
        let operands ← given
        pure ⟨stacked operands ++ stack, l⟩)) :
    S.exec (h.instantiate ++ arguments ++ [h.call]) ⟨stack, l⟩ =
      (do
        let v ← S.callHandler h given
        pure ⟨pushed v ++ stack, l⟩) := by
  rw [exec_append, exec_append, exec_instantiate, callHandler, bind_assoc, bind_assoc, bind_assoc]
  refine yields_receiver.bind_congr fun object hobject => ?_
  rw [pure_bind, harguments, bind_assoc, bind_assoc]
  refine hgiven.bind_congr fun operands hoperands => ?_
  rw [pure_bind, exec_singleton, ← List.append_assoc, ← stacked_append, Handler.call,
    execute_invoke]
  rw [List.map_append, hobject, hoperands, callKinds]
  cases h.isStatic <;> rfl

theorem exec_dropResult (hv : v.map Value.kind = h.returns.map ValueType.kind) :
    S.exec h.dropResult ⟨pushed v ++ stack, l⟩ = pure ⟨stack, l⟩ := by
  unfold Handler.dropResult
  cases hreturns : h.returns with
  | none =>
    rw [hreturns, Option.map_none, Option.map_eq_none_iff] at hv
    rw [hv]
    rfl
  | some t =>
    rw [hreturns, Option.map_some, Option.map_eq_some_iff] at hv
    obtain ⟨v, rfl, hkind⟩ := hv
    rw [Option.map_some, Option.toList_some, exec_singleton, ← hkind]
    exact execute_drop

end Handlers

end Machine.Surroundings

end CodeWeaving
