import CodeWeaving.Proofs.Machine.HandlerCalls
import CodeWeaving.Weaving.Mode.Arguments

/-! Arguments that go through a view: what goes in comes out again, as long as boxes give back what
was put in them and nobody changes the view. -/
namespace CodeWeaving

open Code Machine

/-- What one can say of views, boxes and types in a state of the surroundings. -/
structure Machine.ViewModel {Ref : Type} (T : Surroundings Ref) where
  /-- What is where in a view; nothing if the object is none. -/
  contents : T.World → Value Ref → Option (Int32 → Option (Value Ref))
  /-- The object is a box of the type with the value in it. -/
  boxes : T.World → Value Ref → BaseType → Value Ref → Prop
  /-- The object is one of the type. -/
  fits : Value Ref → RefType → Prop

namespace Machine.ViewModel

variable {Ref : Type} {T : Surroundings Ref} {M : ViewModel T} {w w' w'' : T.World}
  {o x v : Value Ref} {t : ValueType} {c c' : Int32 → Option (Value Ref)} {place : Nat}

/-- Boxes stay boxes of what they hold. -/
def KeepsBoxes (M : ViewModel T) (w w' : T.World) : Prop :=
  ∀ x b v, M.boxes w x b v → M.boxes w' x b v

/-- A view holds what it held, and so do boxes. -/
structure Keeps (M : ViewModel T) (o : Value Ref) (w w' : T.World) : Prop where
  contents : M.contents w' o = M.contents w o
  boxes : M.KeepsBoxes w w'

theorem Keeps.trans (h : M.Keeps o w w') (h' : M.Keeps o w' w'') : M.Keeps o w w'' where
  contents := h'.contents.trans h.contents
  boxes x b v hx := h'.boxes x b v (h.boxes x b v hx)

/-- Views hold what is set in them, boxes what they are made of, and an object can be cast to a type
that it is of. -/
structure Lawful (M : ViewModel T) (view : ClassName) : Prop where
  create : ∀ w n, 0 ≤ n → ∃ o w₁ w₂ c, T.answerValue (.allocate view) w = some (o, w₁) ∧
    T.answer (.call .special ⟨view, .init, ⟨[.int], none⟩⟩ [o, .int n]) w₁ = some ([], w₂) ∧
    M.contents w₂ o = some c ∧ ∀ i, 0 ≤ i → i < n → (c i).isSome
  set : ∀ w o c i x, M.contents w o = some c → (c i).isSome → x.kind = .reference →
    ∃ w', T.answer (.call .virtual ⟨view, .set, ⟨[.int, .object .object], none⟩⟩
        [o, .int i, x]) w = some ([], w') ∧
      M.contents w' o = some (Function.update c i (some x)) ∧ M.KeepsBoxes w w'
  get : ∀ w o c i x, M.contents w o = some c → c i = some x → x.kind = .reference →
    ∃ w', T.answerValue (.call .virtual ⟨view, .get, ⟨[.int], some (.object .object)⟩⟩
        [o, .int i]) w = some (x, w') ∧ M.Keeps o w w'
  box : ∀ w v b, v.kind = b.kind →
    ∃ x w', T.answerValue (.call .static b.boxing [v]) w = some (x, w') ∧ M.boxes w' x b v ∧
      ∀ o, M.Keeps o w w'
  asBox : ∀ w x b v, M.boxes w x b v →
    ∃ w', T.answerValue (.cast (.object b.boxed) x) w = some (x, w') ∧ ∀ o, M.Keeps o w w'
  unbox : ∀ w x b v, M.boxes w x b v →
    ∃ w', T.answerValue (.call .virtual b.unboxing [x]) w = some (v, w') ∧ ∀ o, M.Keeps o w w'
  cast : ∀ w v t, M.fits v t →
    ∃ w', T.answerValue (.cast t v) w = some (v, w') ∧ ∀ o, M.Keeps o w w'

/-- The handler returns from a view and leaves it as it is. -/
def LeavesViews (M : ViewModel T) (h : Handler) : Prop :=
  ∀ w o c, M.contents w o = some c →
    ∃ r w', T.callHandler h (pure [o]) w = some (r, w') ∧ M.Keeps o w w'

/-- The value is one of the type, as far as the kind tells and, for an object, its class. -/
def Typed (M : ViewModel T) (v : Value Ref) (t : ValueType) : Prop :=
  v.kind = t.kind ∧ ∀ r, t = .ref r → M.fits v r

/-- An object stands for a value of a type: as a box, or as itself. -/
def Carries (M : ViewModel T) (w : T.World) (x v : Value Ref) : ValueType → Prop
  | .base b => M.boxes w x b v
  | .ref _ => x = v

theorem Carries.keep (h : M.Carries w x v t) (hw : M.KeepsBoxes w w') : M.Carries w' x v t := by
  cases t with
  | base b => exact hw x b v h
  | ref r => exact h

/-- In a view, from a place on, lie objects that stand for the values. -/
def CarriesFrom (M : ViewModel T) (w : T.World) (c : Int32 → Option (Value Ref)) :
    Nat → List (ValueType × Value Ref) → Prop
  | _, [] => True
  | place, (t, v) :: values =>
    (∃ x, c (.ofNat place) = some x ∧ x.kind = .reference ∧ M.Carries w x v t) ∧
      CarriesFrom M w c (place + 1) values

theorem CarriesFrom.keep {values : List (ValueType × Value Ref)}
    (h : M.CarriesFrom w c place values) (hw : M.KeepsBoxes w w') :
    M.CarriesFrom w' c place values := by
  induction values generalizing place with
  | nil => exact trivial
  | cons p values ih =>
    obtain ⟨⟨x, hx, hkind, hcarries⟩, hrest⟩ := h
    exact ⟨⟨x, hx, hkind, hcarries.keep hw⟩, ih hrest⟩

section Conversions

variable {view : ClassName}

theorem Lawful.convert_there (hM : M.Lawful view) (hv : M.Typed v t) (w : T.World) :
    ∃ x w', T.convert t (.object .object) v w = some (x, w') ∧ x.kind = .reference ∧
      M.Carries w' x v t ∧ ∀ o, M.Keeps o w w' := by
  cases t with
  | base b =>
    obtain ⟨x, w', hx, hboxes, hkeeps⟩ := hM.box w v b hv.1
    exact ⟨x, w', hx, Surroundings.yields_callValue (m := b.boxing) rfl _ _ _ hx, hboxes, hkeeps⟩
  | ref r => exact ⟨v, w, rfl, hv.1, rfl, fun o => ⟨rfl, fun _ _ _ h => h⟩⟩

theorem Lawful.convert_back (hM : M.Lawful view) (hx : M.Carries w x v t) (hv : M.Typed v t) :
    ∃ w', T.convert (.object .object) t x w = some (v, w') ∧ ∀ o, M.Keeps o w w' := by
  cases t with
  | base b =>
    obtain ⟨w₁, hcast, hkeeps₁⟩ := hM.asBox w x b v hx
    obtain ⟨w₂, hunbox, hkeeps₂⟩ := hM.unbox w₁ x b v ((hkeeps₁ v).boxes x b v hx)
    refine ⟨w₂, bind_eq_some.2 ⟨x, w₁, ?_, hunbox⟩, fun o => (hkeeps₁ o).trans (hkeeps₂ o)⟩
    rw [Surroundings.narrow, if_neg ?_, hcast]
    cases b <;> decide
  | ref r =>
    obtain rfl : x = v := hx
    obtain ⟨w', hcast, hkeeps⟩ := hM.cast w x r (hv.2 r rfl)
    change ∃ w', (if r = .object .object then pure x else T.narrow (.object .object) r x) w = _ ∧ _
    split
    · exact ⟨w, rfl, fun o => ⟨rfl, fun _ _ _ h => h⟩⟩
    · rename_i hr
      rw [Surroundings.narrow, if_neg (Ne.symm hr)]
      exact ⟨w', hcast, hkeeps⟩

end Conversions

end Machine.ViewModel

namespace ModifyArguments

variable {Ref : Type} {T : Surroundings Ref} {M : ViewModel T} {view : ClassName} {w : T.World}
  {o : Value Ref} {c : Int32 → Option (Value Ref)} {place n : Nat} {code : Code} {s : Spill}
  {types : List ValueType} {values : List (Value Ref)} {viewSlot : UInt16}
  {stack : List (Slot Ref)} {l : Locals Ref}

theorem toInt_place {i : Nat} (h : i < 2 ^ 16) : (Int32.ofNat i).toInt = i :=
  Int32.toInt_ofNat_of_lt (h.trans (by decide))

theorem place_ne {i j : Nat} (hij : i < j) (hj : j < 2 ^ 16) :
    Int32.ofNat i ≠ Int32.ofNat j := by
  rw [ne_eq, ← Int32.toInt_inj, toInt_place (hij.trans hj), toInt_place hj]
  omega

theorem exec_newView (stack : List (Slot Ref)) (l : Locals Ref) (w : T.World)
    (hM : M.Lawful view) (hn : n < 2 ^ 16) : ∃ o w' c,
    T.exec (newView view n) ⟨stack, l⟩ w = some (⟨o.slots ++ stack, l⟩, w') ∧
      o.kind = .reference ∧ M.contents w' o = some c ∧ ∀ i < n, (c (.ofNat i)).isSome := by
  have hcount : 0 ≤ Int32.ofNat n := by
    rw [Int32.le_iff_toInt_le, toInt_place hn]
    exact Int.natCast_nonneg n
  obtain ⟨o, w₁, w₂, c, ho, hinit, hc, hroom⟩ := hM.create w (.ofNat n) hcount
  have hkind : o.kind = .reference :=
    Surroundings.yields_answerValue (q := .allocate view) rfl _ _ _ ho
  refine ⟨o, w₂, c, ?_, hkind, hc, fun i hi => hroom _ ?_ ?_⟩
  · change T.exec ([.new view, .dup] ++ _) _ _ = _
    rw [Surroundings.exec_append, Surroundings.exec_new, bind_assoc, bind_eq_some]
    refine ⟨o, w₁, ho, ?_⟩
    have hstack : (Value.int (.ofNat n)).slots ++ (o.slots ++ (o.slots ++ stack)) =
        stacked [o, .int (.ofNat n)] ++ (o.slots ++ stack) := by
      simp [stacked]
    rw [pure_bind, Surroundings.exec_cons, Surroundings.execute_of_go rfl, pure_bind, Frame.push,
      Surroundings.exec_singleton, hstack]
    unfold callView
    rw [Surroundings.execute_invoke_nothing _ rfl]
    · exact bind_pure_eq_some.2 ⟨[], hinit, rfl⟩
    · rw [List.map_cons, hkind]
      rfl
  · rw [Int32.le_iff_toInt_le, toInt_place (hi.trans hn)]
    exact Int.natCast_nonneg i
  · rw [Int32.lt_iff_toInt_lt, toInt_place (hi.trans hn), toInt_place hn]
    exact Int.ofNat_lt.2 hi

/-- The view and a place in it come on top of the stack. -/
theorem exec_place {i : Int32} (ho : o.kind = .reference) (hview : l.Holds viewSlot.toNat o) :
    T.exec ([.loadLocal viewSlot .reference, .pushConstant (.int i)] ++ code) ⟨stack, l⟩ =
      T.exec code ⟨stacked [o, .int i] ++ stack, l⟩ := by
  rw [List.cons_append, List.singleton_append, Surroundings.exec_cons, ← ho,
    Surroundings.execute_loadLocal hview, pure_bind, Surroundings.exec_cons,
    Surroundings.execute_of_go rfl, pure_bind, Frame.push]
  simp [stacked]

theorem exec_fill (stack : List (Slot Ref)) (hM : M.Lawful view)
    (h : fill view viewSlot place s = .ok code) (hheld : s.Held l values)
    (htyped : ∀ p ∈ (s.map Prod.snd).zip values, M.Typed p.2 p.1)
    (ho : o.kind = .reference) (hview : l.Holds viewSlot.toNat o)
    (hplace : place + s.length < 2 ^ 16) (hc : M.contents w o = some c)
    (hroom : ∀ i < place + s.length, (c (.ofNat i)).isSome) :
    ∃ w' c', T.exec code ⟨stack, l⟩ w = some (⟨stack, l⟩, w') ∧ M.contents w' o = some c' ∧
      M.KeepsBoxes w w' ∧ (∀ i < place, c' (.ofNat i) = c (.ofNat i)) ∧
      M.CarriesFrom w' c' place ((s.map Prod.snd).zip values) := by
  induction hheld generalizing place code w c with
  | nil =>
    cases h
    exact ⟨w, c, rfl, hc, fun _ _ _ h => h, fun _ _ => rfl, trivial⟩
  | @cons entry v s values hv _ ih =>
    obtain ⟨slot, t⟩ := entry
    simp only [fill, bind_eq_ok] at h
    obtain ⟨conversion, hconversion, rest, hrest, h⟩ := h
    cases h
    rw [List.map_cons, List.zip_cons_cons, List.forall_mem_cons] at htyped
    rw [List.length_cons] at hplace hroom
    obtain ⟨x, w₁, hx, hkind, hcarries, hkeeps⟩ := hM.convert_there htyped.1 w
    obtain ⟨w₂, hset, hc₂, hboxes⟩ := hM.set w₁ o c (.ofNat place) x
      ((hkeeps o).contents.trans hc) (hroom place (by omega)) hkind
    obtain ⟨w₃, c₃, hexec, hc₃, hboxes₃, hbelow, hrests⟩ := ih hrest htyped.2 (by omega) hc₂
      fun i hi => by
        rw [Function.update_apply]
        split
        · rfl
        · exact hroom i (by omega)
    refine ⟨w₃, c₃, ?_, hc₃, fun x b v h => hboxes₃ x b v (hboxes x b v ((hkeeps o).boxes x b v h)),
      fun i hi => ?_, ⟨x, ?_, hkind, (hcarries.keep hboxes).keep hboxes₃⟩, hrests⟩
    · have hcode : [.loadLocal viewSlot .reference, .pushConstant (.int (.ofNat place)),
          .loadLocal slot t.kind] ++ conversion ++
          callView view .virtual .set [.int, .object .object] none :: rest =
          [.loadLocal viewSlot .reference, .pushConstant (.int (.ofNat place))] ++
            ((.loadLocal slot t.kind :: conversion) ++
              ([callView view .virtual .set [.int, .object .object] none] ++ rest)) := by
        simp
      have hstack : x.slots ++ (stacked [o, .int (.ofNat place)] ++ stack) =
          stacked [o, .int (.ofNat place), x] ++ stack := by
        simp [stacked]
      rw [hcode, exec_place ho hview, Surroundings.exec_append,
        Surroundings.exec_loadAs_single hconversion hv.1 hv.2, bind_assoc, bind_eq_some]
      refine ⟨x, w₁, hx, ?_⟩
      rw [pure_bind, Surroundings.exec_append, Surroundings.exec_singleton, hstack, callView,
        Surroundings.execute_invoke_nothing _ rfl]
      · rw [bind_assoc, bind_eq_some]
        exact ⟨[], w₂, hset, hexec⟩
      · rw [List.map_cons, ho, List.map_cons, List.map_cons, hkind]
        rfl
    · rw [hbelow i (by omega), Function.update_of_ne (place_ne hi (by omega))]
    · rw [hbelow place (Nat.lt_succ_self place), Function.update_self]

theorem exec_empty (stack : List (Slot Ref)) (hM : M.Lawful view)
    (h : empty view viewSlot place types = .ok code) (hlen : values.length = types.length)
    (htyped : ∀ p ∈ types.zip values, M.Typed p.2 p.1) (ho : o.kind = .reference)
    (hview : l.Holds viewSlot.toNat o) (hc : M.contents w o = some c)
    (hcarries : M.CarriesFrom w c place (types.zip values)) :
    ∃ w', T.exec code ⟨stack, l⟩ w = some (⟨stacked values ++ stack, l⟩, w') := by
  induction types generalizing place code w values stack with
  | nil =>
    obtain rfl := List.length_eq_zero_iff.1 hlen
    cases h
    exact ⟨w, rfl⟩
  | cons t types ih =>
    cases values with
    | nil => cases hlen
    | cons v values =>
      simp only [empty, bind_eq_ok] at h
      obtain ⟨conversion, hconversion, rest, hrest, h⟩ := h
      cases h
      rw [List.zip_cons_cons, List.forall_mem_cons] at htyped
      obtain ⟨⟨x, hx, hkind, hxv⟩, hcarries⟩ := hcarries
      obtain ⟨w₁, hget, hkeeps₁⟩ := hM.get w o c (.ofNat place) x hc hx hkind
      obtain ⟨w₂, hconvert, hkeeps₂⟩ := hM.convert_back (hxv.keep hkeeps₁.boxes) htyped.1
      have hkeeps := hkeeps₁.trans (hkeeps₂ o)
      obtain ⟨w₃, hexec⟩ := ih (v.slots ++ stack) hrest (Nat.succ.inj hlen) htyped.2
        (hkeeps.contents.trans hc) (hcarries.keep hkeeps.boxes)
      refine ⟨w₃, ?_⟩
      have hcode : [.loadLocal viewSlot .reference, .pushConstant (.int (.ofNat place)),
          callView view .virtual .get [.int] (some (.object .object))] ++ conversion ++ rest =
          [.loadLocal viewSlot .reference, .pushConstant (.int (.ofNat place))] ++
            ([callView view .virtual .get [.int] (some (.object .object))] ++
              (conversion ++ rest)) := by
        simp
      rw [hcode, exec_place ho hview, Surroundings.exec_append, Surroundings.exec_singleton,
        callView, Surroundings.execute_invoke_value (k := .reference) _ rfl, bind_assoc,
        bind_eq_some]
      · refine ⟨x, w₁, hget, ?_⟩
        rw [pure_bind, Surroundings.exec_append,
          Surroundings.exec_convert (ValueType.coerce_eq_ok.1 hconversion) hkind, bind_assoc,
          bind_eq_some]
        refine ⟨v, w₂, hconvert, ?_⟩
        rw [pure_bind, hexec, stacked, List.append_assoc]
      · rw [List.map_cons, ho]
        rfl

/-- The handler is called on the view, and what it returns is dropped. -/
theorem exec_viewCall {h : Handler} {r : Option (Value Ref)} {w' : T.World}
    (stack : List (Slot Ref))
    (hparameters : h.parameters = [.object view]) (ho : o.kind = .reference)
    (hview : l.Holds viewSlot.toNat o) (hcall : T.callHandler h (pure [o]) w = some (r, w')) :
    T.exec (h.instantiate ++ [.loadLocal viewSlot .reference, h.call] ++ h.dropResult)
      ⟨stack, l⟩ w = some (⟨stack, l⟩, w') := by
  have hgiven : Yields (σ := T.World) (pure [o]) fun operands =>
      operands.map Value.kind = h.parameters.map ValueType.kind :=
    .pure (by rw [List.map_singleton, ho, hparameters]; rfl)
  have hload (stack : List (Slot Ref)) : T.exec [.loadLocal viewSlot .reference] ⟨stack, l⟩ =
      (do
        let operands ← pure [o]
        pure ⟨stacked operands ++ stack, l⟩) := by
    rw [Surroundings.exec_singleton, ← ho, Surroundings.execute_loadLocal hview, pure_bind]
    rfl
  have hcode : h.instantiate ++ [.loadLocal viewSlot .reference, h.call] ++ h.dropResult =
      h.instantiate ++ [.loadLocal viewSlot .reference] ++ [h.call] ++ h.dropResult := by
    simp
  have hkind := Surroundings.yields_callHandler _ _ _ hcall
  have hexec : T.exec (h.instantiate ++ [.loadLocal viewSlot .reference] ++ [h.call]) ⟨stack, l⟩ w =
      some (⟨pushed r ++ stack, l⟩, w') := by
    rw [Surroundings.exec_callHandler stack hgiven hload]
    exact bind_pure_eq_some.2 ⟨r, hcall, rfl⟩
  rw [hcode, Surroundings.exec_append_of_some hexec, Surroundings.exec_dropResult hkind]
  rfl

/-- What goes into the view from slots comes out of it onto the stack, the handler in between. -/
theorem exec_throughView {h : Handler} {filling emptying : Code} (stack : List (Slot Ref))
    (hM : M.Lawful view) (hhandler : M.LeavesViews h) (hparameters : h.parameters = [.object view])
    (hfilling : fill view viewSlot 0 s = .ok filling)
    (hemptying : empty view viewSlot 0 (s.map Prod.snd) = .ok emptying)
    (hheld : s.Held l values) (htyped : ∀ p ∈ (s.map Prod.snd).zip values, M.Typed p.2 p.1)
    (ho : o.kind = .reference) (hview : l.Holds viewSlot.toNat o) (hsize : s.length < 2 ^ 16)
    (hc : M.contents w o = some c) (hroom : ∀ i < s.length, (c (.ofNat i)).isSome) :
    ∃ w', T.exec (filling ++ ((h.instantiate ++ [.loadLocal viewSlot .reference, h.call] ++
        h.dropResult) ++ emptying)) ⟨stack, l⟩ w =
      some (⟨stacked values ++ stack, l⟩, w') := by
  obtain ⟨w₁, c₁, hfill, hc₁, -, -, hcarries⟩ := exec_fill stack hM hfilling hheld htyped ho hview
    (by rwa [Nat.zero_add]) hc (by rwa [Nat.zero_add])
  obtain ⟨r, w₂, hcall, hkeeps⟩ := hhandler w₁ o c₁ hc₁
  have hviewCall := exec_viewCall stack hparameters ho hview hcall
  have hlen : values.length = (s.map Prod.snd).length := by
    rw [List.length_map, hheld.length_eq]
  obtain ⟨w₃, hempty⟩ := exec_empty stack hM hemptying hlen htyped ho hview
    (hkeeps.contents.trans hc₁) (hcarries.keep hkeeps.boxes)
  refine ⟨w₃, ?_⟩
  rw [Surroundings.exec_append_of_some hfill, Surroundings.exec_append_of_some hviewCall, hempty]

/-- The code for a call gives the arguments back where they were and keeps other locals. -/
theorem exec_codeFor {cx : Context} {supply left : Supply} (stack : List (Slot Ref))
    (l : Locals Ref) (hM : M.Lawful cx.settings.argumentView)
    (hhandler : M.LeavesViews cx.handler)
    (hparameters : cx.handler.parameters = [.object cx.settings.argumentView])
    (h : codeFor cx types supply = .ok (code, left))
    (hkinds : values.map Value.kind = types.map ValueType.kind)
    (htyped : ∀ p ∈ types.zip values, M.Typed p.2 p.1) (w : T.World) :
    ∃ l' w', T.exec code ⟨stacked values ++ stack, l⟩ w = some (⟨stacked values ++ stack, l'⟩, w') ∧
      Locals.Agree supply.slots.next l l' := by
  simp only [codeFor, bind_eq_ok] at h
  obtain ⟨⟨slots, between⟩, hslots, ⟨viewSlot, left⟩, hslot, filling, hfilling, emptying, hemptying,
    h⟩ := h
  cases h
  dsimp only at hslot hfilling hemptying ⊢
  have hlenSlots : slots.length = types.length := by
    rw [Supply.length_slotsFor hslots, List.length_map]
  have hwithin := Supply.within_of_slotsFor hslots
  have hviewSlot := (Supply.slot_eq_ok hslot).1
  generalize hs : (slots.zip types : Spill) = s at *
  have htypes : s.map Prod.snd = types := by rw [← hs, List.map_snd_zip hlenSlots.ge]
  have hlenTypes : types.length = s.length := by rw [← htypes, List.length_map]
  have hkinds' : values.map Value.kind = s.map fun v => v.2.kind := by
    rw [hkinds, ← htypes, List.map_map]
    rfl
  have hcount : types.length < 2 ^ 16 := by
    have := hwithin.length_le
    have := viewSlot.toNat_lt
    omega
  obtain ⟨o, w₁, c, hnew, ho, hc, hroom⟩ := exec_newView stack
    (Spill.filled l s values) w hM hcount
  generalize hl' : (Spill.filled l s values).store viewSlot.toNat o = l'
  have hview : l'.Holds viewSlot.toNat o := hl' ▸ Locals.holds_store
  have hheld : Spill.Held l' s values := by
    refine (Spill.held_filled (l := l) hwithin hkinds').congr hwithin fun k _ hk => ?_
    rw [← hl']
    exact Locals.store_of_outside (.inl (hviewSlot ▸ hk))
  have hstoreView : T.exec [.storeLocal viewSlot .reference]
      ⟨o.slots ++ stack, Spill.filled l s values⟩ w₁ = some (⟨stack, l'⟩, w₁) := by
    rw [Surroundings.exec_singleton, ← ho, Surroundings.execute_storeLocal, hl']
    rfl
  obtain ⟨w₂, hthrough⟩ := exec_throughView stack hM hhandler hparameters hfilling
    (by rwa [htypes]) hheld (by rwa [htypes]) ho hview (by omega) hc (by rwa [← hlenTypes])
  refine ⟨l', w₂, ?_, ?_⟩
  · have hcode : Spill.store s ++ newView cx.settings.argumentView types.length ++
        [.storeLocal viewSlot .reference] ++ filling ++ cx.handler.instantiate ++
        [.loadLocal viewSlot .reference, cx.handler.call] ++ cx.handler.dropResult ++ emptying =
        Spill.store s ++ (newView cx.settings.argumentView types.length ++
          ([.storeLocal viewSlot .reference] ++ (filling ++ ((cx.handler.instantiate ++
            [.loadLocal viewSlot .reference, cx.handler.call] ++ cx.handler.dropResult) ++
              emptying)))) := by
      simp
    have hstore : T.exec (Spill.store s) ⟨stacked values ++ stack, l⟩ w =
        some (⟨stack, Spill.filled l s values⟩, w) := by
      rw [Surroundings.exec_store hkinds']
      rfl
    rw [hcode, Surroundings.exec_append_of_some hstore, Surroundings.exec_append_of_some hnew,
      Surroundings.exec_append_of_some hstoreView, hthrough]
  · rw [← hl']
    refine (Spill.agree_filled hwithin).trans (Locals.agree_store ?_)
    rw [hviewSlot]
    exact hwithin.le

end ModifyArguments

end CodeWeaving
