import CodeWeaving.Proofs.Machine.Filters
import CodeWeaving.Proofs.Machine.Redirects

/-! Literals and locals that pass through a handler: nothing but the value changes. -/
namespace CodeWeaving

open Code Machine

namespace Machine

variable {Ref : Type} {S : Surroundings Ref} {h : Handler} {value parameter result : ValueType}
  {code new rest : Code} {start stop slot : Nat}

/-- Between two places a value of a type on top of any stack comes to what the handler makes of it.
What lies below it and the locals stay. -/
structure FiltersTop (S : Surroundings Ref) (h : Handler) (code : Code) (start stop : Nat)
    (value parameter result : ValueType) : Prop where
  kind : ∀ v, Yields (S.passed h value parameter result v) fun v' => v'.kind = value.kind
  comesTo : ∀ (v : Value Ref) (stack : List (Slot Ref)) (l : Locals Ref), v.kind = value.kind →
    S.ComesTo code start stop start ⟨v.slots ++ stack, l⟩ (S.passed h value parameter result v)
      fun v' w => .at stop w ⟨v'.slots ++ stack, l⟩

/-- Between two places a value of a type in a local slot comes to what the handler makes of it. The
stack and the other locals stay. -/
structure FiltersSlot (S : Surroundings Ref) (h : Handler) (code : Code) (start stop slot : Nat)
    (value parameter result : ValueType) : Prop where
  kind : ∀ v, Yields (S.passed h value parameter result v) fun v' => v'.kind = value.kind
  comesTo : ∀ (v : Value Ref) (stack : List (Slot Ref)) (l : Locals Ref), v.kind = value.kind →
    l.Holds slot v →
    S.ComesTo code start stop start ⟨stack, l⟩ (S.passed h value parameter result v)
      fun v' w => .at stop w ⟨stack, l.store slot v'⟩

section Filters

variable (hfilter : h.filter? = some (parameter, result))
  (hnew : h.filter value parameter result = .ok new)

include hfilter hnew

theorem filtersTop (hdrop : code.drop start = new ++ rest) :
    FiltersTop S h code start (start + new.length) value parameter result where
  kind _ := Surroundings.yields_passed hfilter hnew
  comesTo _ _ _ hv := Surroundings.comesTo_plain hdrop
    (Handler.turns_filter hfilter hnew).isPlain (Surroundings.exec_filter hfilter hnew hv)
    fun _ _ => rfl

/-- A slot is loaded, filtered on top of the stack and stored again. -/
theorem exec_filterSlot {slot : UInt16} {v : Value Ref} {stack : List (Slot Ref)} {l : Locals Ref}
    (hv : v.kind = value.kind) (hl : l.Holds slot.toNat v) :
    S.exec (.loadLocal slot value.kind :: (new ++ [.storeLocal slot value.kind])) ⟨stack, l⟩ =
      (do
        let v' ← S.passed h value parameter result v
        pure ⟨stack, l.store slot.toNat v'⟩) := by
  rw [Surroundings.exec_cons, ← hv, Surroundings.execute_loadLocal hl, pure_bind,
    Surroundings.exec_append, Surroundings.exec_filter hfilter hnew hv, bind_assoc]
  refine (Surroundings.yields_passed hfilter hnew).bind_congr fun v' hv' => ?_
  rw [pure_bind, Surroundings.exec_singleton, hv, ← hv', Surroundings.execute_storeLocal]

theorem filtersSlot {slot : UInt16} {around : Code} {k : ValueKind} (hk : value.kind = k)
    (haround : around = .loadLocal slot k :: (new ++ [.storeLocal slot k]))
    (hdrop : code.drop start = around ++ rest) :
    FiltersSlot S h code start (start + around.length) slot.toNat value parameter result where
  kind _ := Surroundings.yields_passed hfilter hnew
  comesTo _ _ _ hv hl := by
    subst hk haround
    exact Surroundings.comesTo_plain hdrop (Handler.turns_filterSlot slot hfilter hnew).isPlain
      (exec_filterSlot hfilter hnew hv hl) fun _ _ => rfl

end Filters

/-- The push of a literal, be it a short one, pushes it. -/
theorem begin_of_literal? {i : Instruction} {c : Constant} (h : i.literal? = some c)
    (f : Frame Ref) : begin i f = some (f.pushConstant c) := by
  cases i with
  | pushConstant value =>
    cases h
    rfl
  | raw r =>
    have hiinc : r.opcode ≠ Opcode.iinc := by
      intro hiinc
      simp [Instruction.literal?, hiinc, Opcode.iinc, Opcode.bipush, Opcode.sipush] at h
    simp [begin, beginRaw, hiinc, h]
  | _ => cases h

end Machine

namespace ModifyConstant

variable {Ref : Type} {cx : Context} {m : Method} {c : ConstantMatch}
  {parameter result : ValueType} {supply left : Supply} {site : Site} {e : Edit}

theorem next_le_of_editAt {literal : ValueType}
    (h : (editAt cx m literal parameter result supply site).result = .ok (e, left)) :
    supply.slots.next ≤ left.slots.next := by
  obtain ⟨_, -, -, rfl⟩ := editAt_eq_ok h
  exact Nat.le_refl _

/-- The push of a literal that matches, and the value it pushes come to what the handler makes of it
right after. -/
def Filtered (S : Surroundings Ref) (cx : Context) (m : Method) (u : Draft) (c : ConstantMatch)
    (parameter result : ValueType) (site : Site) : Prop :=
  ∃ literal start stop, site.instruction.literal? = some literal ∧
    literal.kind = c.value.type.kind ∧
    (∀ f : Frame Ref, begin site.instruction f = some (f.pushConstant literal)) ∧
    Weaver.Beside m u .after site.anchor.index site.instruction start stop ∧
    FiltersTop S cx.handler u.method.code start stop c.value.type parameter result

/-- The code planned for a literal does what is said of it where it has been put. -/
theorem filtered_of_editAt (S : Surroundings Ref) {es : List Edit} {first : Nat → Nat} {u : Draft}
    {sites : List Site} (hlaid : Weaver.Laid m es first u)
    (hfilter : cx.handler.filter? = some (parameter, result))
    (hsites : (Draft.ofMethod m).stream.locateConstant c cx.settings.floatEpsilon = .ok sites)
    (hsite : site ∈ sites) (hmem : e ∈ es)
    (hedit : (editAt cx m c.value.type parameter result supply site).result = .ok (e, left)) :
    Filtered S cx m u c parameter result site := by
  obtain ⟨code, hcode, rfl, -⟩ := editAt_eq_ok hedit
  obtain ⟨literal, hliteral, hkind⟩ := CodeStream.exists_literal_of_locateConstant hsites hsite
  have hi := CodeStream.getElem?_of_names_ofList
    ((CodeStream.located_of_locateConstant hsites).names site hsite)
  obtain ⟨start, rest, hbeside, hdrop⟩ := hlaid.exists_beside .after hmem hi
  exact ⟨literal, start, _, hliteral, hkind.trans (Constant.kind_type _).symm,
    begin_of_literal? hliteral, hbeside, filtersTop hfilter hcode hdrop⟩

end ModifyConstant

namespace ModifyVariable

variable {Ref : Type} {cx : Context} {m : Method} {point : InjectionPoint} {slot : Option UInt16}
  {parameter result : ValueType} {supply left : Supply} {site : Site} {e : Edit} {k : ValueKind}

/-- What becomes of a site: where stores or loads are selected, a store has its value filtered right
before and a load right after. At any other instruction a slot that the method uses is filtered. -/
def Filtered (S : Surroundings Ref) (cx : Context) (m : Method) (u : Draft)
    (point : InjectionPoint) (slot : Option UInt16) (parameter result : ValueType) (site : Site) :
    Prop :=
  match point.selector, site.instruction with
  | .locals .., .storeLocal own k =>
    ∃ start stop, Weaver.Beside m u .before site.anchor.index (.storeLocal own k) start stop ∧
      (localType k parameter).kind = k ∧
      FiltersTop S cx.handler u.method.code start stop (localType k parameter) parameter result
  | .locals .., .loadLocal own k =>
    ∃ start stop, Weaver.Beside m u .after site.anchor.index (.loadLocal own k) start stop ∧
      (localType k parameter).kind = k ∧
      FiltersTop S cx.handler u.method.code start stop (localType k parameter) parameter result
  | _, i =>
    ∃ given start stop, slot = some given ∧
      given.toNat + parameter.kind.width ≤ m.localsInUse ∧
      Weaver.Beside m u point.placement site.anchor.index i start stop ∧
      (localType parameter.kind parameter).kind = parameter.kind ∧
      FiltersSlot S cx.handler u.method.code start stop given.toNat
        (localType parameter.kind parameter) parameter result

theorem exists_of_selectsLocals {s : Selector} (h : selectsLocals s = true) :
    ∃ access slot kind ordinal, s = .locals access slot kind ordinal := by
  cases s with
  | locals access slot kind ordinal => exact ⟨access, slot, kind, ordinal, rfl⟩
  | _ => cases h

/-- The code planned for a site does what is said of it where it has been put. -/
theorem filtered_of_editFor (S : Surroundings Ref) {es : List Edit} {first : Nat → Nat} {u : Draft}
    (hlaid : Weaver.Laid m es first u) (hfilter : cx.handler.filter? = some (parameter, result))
    (hi : m.code[site.anchor.index]? = some site.instruction) (hmem : e ∈ es)
    (hedit : editFor cx m point slot parameter result site = .ok e) :
    Filtered S cx m u point slot parameter result site := by
  unfold editFor at hedit
  split at hedit
  · rename_i hselects hinstruction
    obtain ⟨_, _, _, _, hselector⟩ := exists_of_selectsLocals hselects
    obtain ⟨code, hcode, rfl⟩ := map_eq_ok.1 hedit
    obtain ⟨start, rest, hbeside, hdrop⟩ := hlaid.exists_beside .before hmem hi
    rw [hinstruction] at hbeside
    rw [Filtered, hselector, hinstruction]
    exact ⟨start, _, hbeside, kind_localType, filtersTop hfilter hcode hdrop⟩
  · rename_i hselects hinstruction
    obtain ⟨_, _, _, _, hselector⟩ := exists_of_selectsLocals hselects
    obtain ⟨code, hcode, rfl⟩ := map_eq_ok.1 hedit
    obtain ⟨start, rest, hbeside, hdrop⟩ := hlaid.exists_beside .after hmem hi
    rw [hinstruction] at hbeside
    rw [Filtered, hselector, hinstruction]
    exact ⟨start, _, hbeside, kind_localType, filtersTop hfilter hcode hdrop⟩
  · rename_i hstore hload
    obtain ⟨given, code, rfl, hgiven, hcode, rfl⟩ := editSlot_eq_ok hedit
    obtain ⟨start, rest, hbeside, hdrop⟩ := hlaid.exists_beside point.placement hmem hi
    unfold Filtered
    split
    · rename_i hselector hinstruction
      exact (hstore _ _ (hselector ▸ rfl) hinstruction).elim
    · rename_i hselector hinstruction
      exact (hload _ _ (hselector ▸ rfl) hinstruction).elim
    · exact ⟨given, start, _, rfl, hgiven, hbeside, kind_localType,
        filtersSlot hfilter hcode kind_localType rfl hdrop⟩

end ModifyVariable

namespace Weaver

variable {Ref : Type} {cx : Context} {m : Method}

/-- Literals and locals that a directive is applied to come to what one call of the handler makes of
them, and nothing else in the frame changes there. -/
theorem filters_values (S : Surroundings Ref) {n : Nat} {u : Draft}
    (h : (weaveMethod cx).Done (Draft.ofMethod m) n u) :
    (∀ c, cx.directive.action = .modifyConstant c → ∃ sites parameter result,
      (Draft.ofMethod m).stream.locateConstant c cx.settings.floatEpsilon = .ok sites ∧
      sites.length = n ∧ cx.handler.filter? = some (parameter, result) ∧
      ∀ site ∈ sites, ModifyConstant.Filtered S cx m u c parameter result site) ∧
    ∀ point slot, cx.directive.action = .modifyVariable point slot → ∃ sites parameter result,
      Context.sites (Draft.ofMethod m) (ModifyVariable.narrowed point parameter) = .ok sites ∧
      sites.length = n ∧ cx.handler.filter? = some (parameter, result) ∧
      ∀ site ∈ sites, ModifyVariable.Filtered S cx m u (ModifyVariable.narrowed point parameter)
        slot parameter result site := by
  refine ⟨fun c haction => ?_, fun point slot haction => ?_⟩
  · have hne : cx.directive.action ≠ .overwrite := by simp [haction]
    obtain ⟨es, slots, hes, hlength, hchanged⟩ :=
      exists_changed_of_done (fun _ => apart_of_plan hne) h
    obtain ⟨first, hlaid⟩ := hchanged.exists_laid
    rw [plan, haction] at hes
    obtain ⟨sites, parameter, result, hsites, hfilter, hes⟩ := ModifyConstant.plan_eq_ok hes
    obtain ⟨hcount, hplanned, -⟩ := Plan.planned_of_ofSites
      (fun _ _ _ _ => ModifyConstant.next_le_of_editAt) hes
    refine ⟨sites, parameter, result, hsites, hcount.symm.trans hlength, hfilter,
      fun site hsite => ?_⟩
    obtain ⟨e, hmem, supply, left, hedit, -⟩ := hplanned site hsite
    exact ModifyConstant.filtered_of_editAt S hlaid hfilter hsites hsite hmem hedit
  · have hplan : plan cx (Draft.ofMethod m) =
        ModifyVariable.plan cx (Draft.ofMethod m) point slot := by
      rw [plan, haction]
    obtain ⟨es, slots, first, hes, hlength, hlaid⟩ :=
      exists_laid_of_done (fun _ hp => ModifyVariable.ready_of_plan (hplan ▸ hp)) h
    rw [hplan] at hes
    obtain ⟨parameter, result, sites, hfilter, hsites, hes⟩ := ModifyVariable.plan_eq_ok hes
    obtain ⟨hcount, hplanned, -⟩ := Plan.planned_of_ofSites
      (fun _ _ _ _ hedit => (ModifyVariable.editAt_eq_ok hedit).2 ▸ Nat.le_refl _) hes
    refine ⟨sites, parameter, result, hsites, hcount.symm.trans hlength, hfilter,
      fun site hsite => ?_⟩
    obtain ⟨e, hmem, supply, left, hedit, -⟩ := hplanned site hsite
    have hi := CodeStream.getElem?_of_names_ofList
      ((Context.located_of_sites hsites).names site hsite)
    exact ModifyVariable.filtered_of_editFor S hlaid hfilter hi hmem
      (ModifyVariable.editAt_eq_ok hedit).1

/-- Directives whose handler takes a long and returns an object. -/
def filterContext (action : Action) : Context where
  settings := .standard
  cls := .object
  directive := ⟨.object, ⟨.set, none⟩, wideningHandler.reference, 0, false, action⟩
  handler := wideningHandler

def sevenMatch : ConstantMatch := ⟨.int 7, -1⟩

def firstLoad : InjectionPoint := ⟨.locals .load none (some .int) 0, 0, .before⟩

def firstStore : InjectionPoint := ⟨.locals .store none (some .long) 0, 0, .before⟩

def methodHead : InjectionPoint := ⟨.head, 0, .before⟩

/-- Has a long in its first slots. -/
def wideMethod : Method where
  name := .set
  signature := ⟨[.base .long], none⟩
  flags := Flags.ofBits _ staticFlag
  maxStack := 0
  maxLocals := 2
  code := [.ret none]

/-- Stores a long in its only slots. -/
def wideStoringMethod : Method where
  name := .set
  signature := ⟨[], none⟩
  flags := Flags.ofBits _ staticFlag
  maxStack := 2
  maxLocals := 2
  code := [.pushConstant (.long 5), .storeLocal 0 .long, .ret none]

theorem values_filtered :
    (∃ u start stop, (weaveMethod (filterContext (.modifyConstant sevenMatch))).Done
        (Draft.ofMethod Redirect.callingMethod) 1 u ∧
      Beside Redirect.callingMethod u .after 1 (.pushConstant (.int 7)) start stop ∧
      ∀ (w : Nat) stack l y, (Surroundings.scripted Redirect.unboxingScript).Leaves u.method.code
          start stop (.at start w ⟨.value (.int 7) :: stack, l⟩) y ↔
        y = .at stop (w + 1 : Nat) ⟨.value (.int 42) :: stack, l⟩) ∧
    (∃ u start stop, (weaveMethod (filterContext (.modifyVariable firstLoad none))).Done
        (Draft.ofMethod guardedMethod) 1 u ∧
      Beside guardedMethod u .after 0 (.loadLocal 0 .int) start stop ∧
      ∀ (w : Nat) stack l y, (Surroundings.scripted Redirect.unboxingScript).Leaves u.method.code
          start stop (.at start w ⟨.value (.int 7) :: stack, l⟩) y ↔
        y = .at stop (w + 1 : Nat) ⟨.value (.int 42) :: stack, l⟩) ∧
    (∃ u start stop, (weaveMethod (filterContext (.modifyVariable firstStore none))).Done
        (Draft.ofMethod wideStoringMethod) 1 u ∧
      Beside wideStoringMethod u .before 1 (.storeLocal 0 .long) start stop ∧
      ∀ (w : Nat) stack l y, (Surroundings.scripted Redirect.unboxingScript).Leaves u.method.code
          start stop (.at start w ⟨.upper :: .value (.long 5) :: stack, l⟩) y ↔
        y = .at stop (w + 1 : Nat) ⟨.upper :: .value (.long 0) :: stack, l⟩) ∧
    ∃ u start stop, (weaveMethod (filterContext (.modifyVariable methodHead (some 0)))).Done
        (Draft.ofMethod wideMethod) 1 u ∧
      Beside wideMethod u .before 0 (.ret none) start stop ∧
      ∀ (w : Nat) stack (l : Locals Nat) y, l.Holds 0 (.long 5) →
        ((Surroundings.scripted Redirect.unboxingScript).Leaves u.method.code start stop
            (.at start w ⟨stack, l⟩) y ↔
          y = .at stop (w + 1 : Nat) ⟨stack, l.store 0 (.long 0)⟩) := by
  have hnarrow (w : Nat) : (Surroundings.scripted Redirect.unboxingScript).passed wideningHandler
      .int (.base .long) (.object .object) (.int 7) w = some (.int 42, (w + 1 : Nat)) := rfl
  have hwide (w : Nat) : (Surroundings.scripted Redirect.unboxingScript).passed wideningHandler
      (.base .long) (.base .long) (.object .object) (.long 5) w =
        some (.long 0, (w + 1 : Nat)) := rfl
  refine ⟨?_, ?_, ?_, ?_⟩
  · have hdone : (weaveMethod (filterContext (.modifyConstant sevenMatch))).Done
        (Draft.ofMethod Redirect.callingMethod) 1 _ := ⟨by decide +kernel, rfl⟩
    obtain ⟨sites, parameter, result, hsites, -, hfilter, hall⟩ :=
      (filters_values (.scripted Redirect.unboxingScript) hdone).1 _ rfl
    have hlocated : (Draft.ofMethod Redirect.callingMethod).stream.locateConstant sevenMatch
      Settings.standard.floatEpsilon = .ok [⟨⟨0, 1⟩, .pushConstant (.int 7)⟩] := rfl
    cases hlocated.symm.trans hsites
    cases hfilter
    obtain ⟨_, start, stop, -, -, -, hbeside, hfilters⟩ := hall _ List.mem_cons_self
    exact ⟨_, start, stop, hdone, hbeside, fun w stack l y =>
      (hfilters.comesTo (.int 7) stack l rfl).leaves_iff (hnarrow w)⟩
  · have hdone : (weaveMethod (filterContext (.modifyVariable firstLoad none))).Done
        (Draft.ofMethod guardedMethod) 1 _ := ⟨by decide +kernel, rfl⟩
    obtain ⟨sites, parameter, result, hsites, -, hfilter, hall⟩ :=
      (filters_values (.scripted Redirect.unboxingScript) hdone).2 _ _ rfl
    have hlocated : Context.sites (Draft.ofMethod guardedMethod)
      (ModifyVariable.narrowed firstLoad (.base .long)) = .ok [⟨⟨0, 0⟩, .loadLocal 0 .int⟩] := rfl
    cases hfilter
    cases hlocated.symm.trans hsites
    obtain ⟨start, stop, hbeside, -, hfilters⟩ := hall _ List.mem_cons_self
    exact ⟨_, start, stop, hdone, hbeside, fun w stack l y =>
      (hfilters.comesTo (.int 7) stack l rfl).leaves_iff (hnarrow w)⟩
  · have hdone : (weaveMethod (filterContext (.modifyVariable firstStore none))).Done
        (Draft.ofMethod wideStoringMethod) 1 _ := ⟨by decide +kernel, rfl⟩
    obtain ⟨sites, parameter, result, hsites, -, hfilter, hall⟩ :=
      (filters_values (.scripted Redirect.unboxingScript) hdone).2 _ _ rfl
    have hlocated : Context.sites (Draft.ofMethod wideStoringMethod)
      (ModifyVariable.narrowed firstStore (.base .long)) =
        .ok [⟨⟨0, 1⟩, .storeLocal 0 .long⟩] := rfl
    cases hfilter
    cases hlocated.symm.trans hsites
    obtain ⟨start, stop, hbeside, -, hfilters⟩ := hall _ List.mem_cons_self
    exact ⟨_, start, stop, hdone, hbeside, fun w stack l y =>
      (hfilters.comesTo (.long 5) stack l rfl).leaves_iff (hwide w)⟩
  · have hdone : (weaveMethod (filterContext (.modifyVariable methodHead (some 0)))).Done
        (Draft.ofMethod wideMethod) 1 _ := ⟨by decide +kernel, rfl⟩
    obtain ⟨sites, parameter, result, hsites, -, hfilter, hall⟩ :=
      (filters_values (.scripted Redirect.unboxingScript) hdone).2 _ _ rfl
    have hlocated : Context.sites (Draft.ofMethod wideMethod)
      (ModifyVariable.narrowed methodHead (.base .long)) = .ok [⟨⟨0, 0⟩, .ret none⟩] := rfl
    cases hfilter
    cases hlocated.symm.trans hsites
    obtain ⟨_, start, stop, hgiven, -, hbeside, -, hfilters⟩ := hall _ List.mem_cons_self
    cases hgiven
    exact ⟨_, start, stop, hdone, hbeside, fun w stack l y hl =>
      (hfilters.comesTo (.long 5) stack l rfl hl).leaves_iff (hwide w)⟩

end Weaver

end CodeWeaving
