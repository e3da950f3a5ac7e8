import CodeWeaving.Proofs.Kinds.Injection

/-! Weaving keeps kinds in order where what woven code reads from slots is there. -/
namespace CodeWeaving

open Code

namespace ModifyVariable

variable {cx : Context} {m : Method} {point : InjectionPoint} {slot : Option UInt16}
  {parameter result : ValueType} {k : ValueKind} {code : Code} {site : Site} {e : Edit}
  {supply left : Supply} {l : SlotKinds} {entry : KindFrame} {T : Nat → Option KindFrame}

/-- Whether an instruction has its own value filtered, on the way to its slot or from there. -/
def filtersAccess (p : InjectionPoint) (i : Instruction) : Bool :=
  match selectsLocals p.selector, i with
  | true, .storeLocal _ _ | true, .loadLocal _ _ => true
  | _, _ => false

theorem retypes_filter (htypes : cx.handler.filter? = some (parameter, result))
    (h : filter cx k parameter result = .ok code) : Retypes l code [k] [k] := by
  have hcode := Handler.retypes_filter (l := l) htypes h
  rwa [kind_localType] at hcode

/-- A slot that holds a value of the kind holds one again. -/
theorem retypes_slot {slot : UInt16} (htypes : cx.handler.filter? = some (parameter, result))
    (h : filter cx k parameter result = .ok code) (hslot : l.Holds slot.toNat k) :
    Retypes l (.loadLocal slot k :: code ++ [.storeLocal slot k]) [] [] := by
  have hload := (Instruction.retypes_loadLocal hslot).append (retypes_filter (l := l) htypes h)
  have hstore : Retypes l [.storeLocal slot k] [k] [] := by
    intro stack
    rw [kindsAfter?_cons, List.singleton_append, Instruction.kindsAfter?_storeLocal,
      SlotKinds.store_of_holds hslot]
    rfl
  exact hload.append hstore

/-- A filter finds a value of its kind: on the stack where the value of a selected store or load is
filtered, elsewhere in the slot. -/
theorem fitsKinds_of_editFor (htypes : cx.handler.filter? = some (parameter, result))
    (h : editFor cx m point slot parameter result site = .ok e)
    (hkinds : m.code.Kinded entry T) (hi : m.code[site.anchor.index]? = some site.instruction)
    (hslot : filtersAccess point site.instruction = false → ∀ s, slot = some s →
      s.toNat + parameter.kind.width ≤ m.localsInUse →
      ∀ g, m.code.handed entry T (point.placement.gap site.anchor.index) = some g →
        g.locals.Holds s.toNat parameter.kind) :
    e.FitsKinds (m.code.handed entry T e.gap) := by
  unfold editFor at h
  split at h
  · rename_i s k _ hstore
    obtain ⟨code, hcode, rfl⟩ := map_eq_ok.1 h
    refine Edit.fitsKinds_of_retypes .before (turns_filter htypes hcode).isPlain ?_
    intro g hg
    obtain ⟨f, hf, hbelow⟩ := hkinds.covered _ g hg
    obtain ⟨f', hafter, -⟩ := hkinds.step _ _ f (hstore ▸ hi) hf
    obtain ⟨below, hstack, -⟩ := Instruction.stack_of_stackAfter? rfl
      (Instruction.kindsAfter?_eq_some.1 hafter).1
    exact ⟨[k], below, hbelow.stack.symm.trans hstack, retypes_filter htypes hcode⟩
  · rename_i s k _ hload
    obtain ⟨code, hcode, rfl⟩ := map_eq_ok.1 h
    refine Edit.fitsKinds_of_retypes .after (turns_filter htypes hcode).isPlain ?_
    intro g hg
    obtain ⟨i, f, hi', hf, -, hafter⟩ := handed_succ_eq_some.1 hg
    obtain rfl : Instruction.loadLocal s k = i := Option.some.inj ((hload ▸ hi).symm.trans hi')
    obtain ⟨below, -, hstack⟩ := Instruction.stack_of_stackAfter? rfl
      (Instruction.kindsAfter?_eq_some.1 hafter).1
    exact ⟨[k], below, hstack, retypes_filter htypes hcode⟩
  · rename_i hstore hload
    -- neither a store nor a load of the selected ones: the value comes from the slot
    have haccess : filtersAccess point site.instruction = false := by
      unfold filtersAccess
      split
      · rename_i hselected haccess
        exact (hstore _ _ hselected haccess).elim
      · rename_i hselected haccess
        exact (hload _ _ hselected haccess).elim
      · rfl
    obtain ⟨s, code, rfl, hrange, hcode, rfl⟩ := editSlot_eq_ok h
    rw [Edit.gap_insert]
    refine Edit.fitsKinds_of_retypes point.placement (turns_filterSlot s htypes hcode).isPlain ?_
    intro g hg
    have hheld := hslot haccess s rfl hrange g hg
    exact ⟨[], g.stack, rfl, retypes_slot htypes hcode hheld⟩

end ModifyVariable

/-- The slots that woven code reads, with the kinds it reads them by and the places between
instructions where it does: the arguments that an injected call is given, and a slot that is
filtered where the point is no store or load. -/
inductive Directive.Reads (settings : Settings) (m : Method) (d : Directive) :
    Nat → UInt16 → ValueKind → Prop where
  | argument {point : InjectionPoint} {cancellable : Bool} {sites : List Site} {site : Site}
      {index : Nat} {slot : UInt16} {t : ValueType}
      (haction : d.action = .inject point cancellable)
      (hsites : Context.sites (Draft.ofMethod m) point = .ok sites) (hsite : site ∈ sites)
      (hindex : index < Inject.argumentCount
        (d.handler.signature.parameters.map (Inject.supplied settings)))
      (hslot : m.argumentSlot? index = some (slot, t)) :
      d.Reads settings m ((Inject.placement point).gap site.anchor.index) slot t.kind
  | filtered {point : InjectionPoint} {slot : UInt16} {sites : List Site} {site : Site}
      {parameter : ValueType} (haction : d.action = .modifyVariable point (some slot))
      (hparameter : d.handler.signature.parameters = [parameter])
      (hsites : Context.sites (Draft.ofMethod m) (ModifyVariable.narrowed point parameter) =
        .ok sites) (hsite : site ∈ sites)
      (haccess : ModifyVariable.filtersAccess (ModifyVariable.narrowed point parameter)
        site.instruction = false) :
      d.Reads settings m
        ((ModifyVariable.narrowed point parameter).placement.gap site.anchor.index) slot
        parameter.kind

/-- Whenever control comes to where woven code reads a slot, a value of the kind is there. -/
def Directive.FindsKinds (d : Directive) (settings : Settings) (m : Method)
    (T : Nat → Option KindFrame) : Prop :=
  ∀ place slot k, d.Reads settings m place slot k →
    ∀ f, m.code.handed m.entryFrame T place = some f → f.locals.Holds slot.toNat k

namespace Weaver

variable {settings : Settings} {handlers : HandlerProvider} {c : ClassDefinition} {d : Directive}
  {cx : Context} {m : Method} {es : List Edit} {u : Draft} {T : Nat → Option KindFrame}
  {n index place : Nat}

/-- What is known of slots that the method does not use may be forgotten. -/
theorem exists_kinded_cut (hkinds : m.code.Kinded m.entryFrame T) :
    ∃ T', m.code.Kinded m.entryFrame T' ∧ ∀ p g, m.code.handed m.entryFrame T' p = some g →
      ∃ f, m.code.handed m.entryFrame T p = some f ∧ g = f.cut m.localsInUse := by
  have hneeded : ∀ i ∈ m.code, i.localsNeeded ≤ m.localsInUse := fun i hi =>
    (localsNeeded_of_mem hi).trans (Nat.le_max_right _ _)
  have hcut := hkinds.cut hneeded
  have hhanded := fun p => hkinds.handed_cut (p := p) hneeded
  rw [m.cut_entryFrame m.parameterLength_le] at hcut hhanded
  refine ⟨_, hcut, ?_⟩
  intro p g hg
  rw [hhanded p] at hg
  obtain ⟨f, hf, rfl⟩ := Option.map_eq_some_iff.1 hg
  exact ⟨f, hf, rfl⟩

theorem kindCorrect_of_inject {point : InjectionPoint} {cancellable : Bool}
    (haction : cx.directive.action = .inject point cancellable)
    (hhandler : cx.handler.reference = cx.directive.handler)
    (hkinds : m.code.Kinded m.entryFrame T) (hreads : cx.directive.FindsKinds cx.settings m T)
    (h : (weaveMethod cx).Done (Draft.ofMethod m) n u) : u.method.KindCorrect := by
  have hplan_eq : plan cx (Draft.ofMethod m) =
      Inject.plan cx (Draft.ofMethod m) point cancellable := by
    rw [plan, haction]
  obtain ⟨es, slots, hplan, -, hedited⟩ := exists_edited_of_done
    (fun p hp => Inject.ready_of_plan (hplan_eq ▸ hp)) h
  -- tokens are stored above the slots in use, so nothing may be known of those where paths meet
  obtain ⟨T', hkinds', hforget⟩ := exists_kinded_cut hkinds
  rw [hplan_eq] at hplan
  obtain ⟨sites, params, hsites, hclassify, hes⟩ := Inject.sites_of_plan hplan
  obtain ⟨-, -, hplanned⟩ := Plan.planned_of_ofSites
    (fun _ _ _ _ => Inject.next_le_of_editAt) hes
  have hparams := Inject.params_of_classify hclassify
  apply hedited.kindCorrect (sameHeader_of_weaveMethod h) hkinds'
  intro e he
  obtain ⟨site, hsite, hsiteEdit⟩ := hplanned e he
  have hgap : e.gap = (Inject.placement point).gap site.anchor.index := by
    obtain ⟨_, _, hedit, -⟩ := hsiteEdit
    obtain ⟨_, -, rfl⟩ := Inject.editAt_eq_ok hedit
    exact Edit.gap_insert _ _ _
  apply Inject.fitsKinds_of_planned hparams hedited.parameters hsiteEdit
  intro g hg
  obtain ⟨f, hf, rfl⟩ := hforget _ g hg
  refine ⟨?_, ?_⟩
  · intro index hindex slot t hslot
    rw [hparams, Handler.parameters, hhandler] at hindex
    have hheld := hreads _ slot t.kind (.argument haction hsites hsite hindex hslot) f (hgap ▸ hf)
    exact hheld.cut
      ((Method.argumentSlot?_le hslot hedited.parameters).trans m.parameterLength_le)
  · intro n hn
    exact if_neg (Nat.not_lt.2 hn)

theorem kindCorrect_of_modifyVariable {point : InjectionPoint} {slot : Option UInt16}
    (haction : cx.directive.action = .modifyVariable point slot)
    (hhandler : cx.handler.reference = cx.directive.handler)
    (hkinds : m.code.Kinded m.entryFrame T) (hreads : cx.directive.FindsKinds cx.settings m T)
    (h : (weaveMethod cx).Done (Draft.ofMethod m) n u) : u.method.KindCorrect := by
  have hplan_eq : plan cx (Draft.ofMethod m) =
      ModifyVariable.plan cx (Draft.ofMethod m) point slot := by
    rw [plan, haction]
  obtain ⟨es, slots, hplan, -, hedited⟩ := exists_edited_of_done
    (fun p hp => ModifyVariable.ready_of_plan (hplan_eq ▸ hp)) h
  obtain ⟨T', hkinds', hforget⟩ := exists_kinded_cut hkinds
  rw [hplan_eq] at hplan
  obtain ⟨parameter, result, sites, htypes, hsites, hes⟩ := ModifyVariable.plan_eq_ok hplan
  have hparameter : cx.directive.handler.signature.parameters = [parameter] := by
    rw [← hhandler]
    exact (Handler.filter?_eq_some htypes).1
  obtain ⟨-, -, hplanned⟩ := Plan.planned_of_ofSites (fun _ _ _ _ hedit =>
    (ModifyVariable.editAt_eq_ok hedit).2 ▸ Nat.le_refl _) hes
  apply hedited.kindCorrect (sameHeader_of_weaveMethod h) hkinds'
  intro e he
  obtain ⟨site, hsite, supply, left, hedit, -⟩ := hplanned e he
  apply ModifyVariable.fitsKinds_of_editFor htypes (ModifyVariable.editAt_eq_ok hedit).1 hkinds'
    (CodeStream.getElem?_of_names_ofList ((Context.located_of_sites hsites).names site hsite))
  rintro haccess s rfl hrange g hg
  obtain ⟨f, hf, rfl⟩ := hforget _ g hg
  exact (hreads _ s parameter.kind (.filtered haction hparameter hsites hsite haccess) f hf).cut
    hrange

/-- Methods whose kinds are in order keep them in order under injected calls and filtered locals,
if woven code finds the values that it reads. -/
theorem kinds_preserved
    (haction : (∃ point cancellable, d.action = .inject point cancellable) ∨
      ∃ point slot, d.action = .modifyVariable point slot)
    (hm : c.methods[place]? = some m) (hkinds : m.code.Kinded m.entryFrame T)
    (hreads : d.FindsKinds settings m T) :
    ∃ m', (weaveOne settings handlers c index d).1.methods[place]? = some m' ∧
      m'.KindCorrect := by
  rw [weaveOne_eq.1]
  refine ⟨_, by rw [List.getElem?_map, hm]; rfl, ?_⟩
  unfold rework
  split
  · split
    · unfold wovenMethod
      split
      · rename_i hresult
        rcases haction with ⟨point, cancellable, haction⟩ | ⟨point, slot, haction⟩
        · exact kindCorrect_of_inject haction rfl hkinds hreads ⟨hresult, rfl⟩
        · exact kindCorrect_of_modifyVariable haction rfl hkinds hreads ⟨hresult, rfl⟩
      · exact ⟨T, hkinds⟩
    · exact ⟨T, hkinds⟩
  · exact ⟨T, hkinds⟩

/-- Takes a number and puts `null` into a slot. -/
def nullingMethod (slot : UInt16) : Method where
  name := .valueOf
  signature := ⟨[.int], none⟩
  flags := Flags.ofBits _ staticFlag
  maxStack := 1
  maxLocals := 2
  code := [.pushConstant .null, .storeLocal slot .reference, .ret none]

def nullingFrames (slot : UInt16) : Nat → Option KindFrame
  | 0 => some (nullingMethod slot).entryFrame
  | 1 => some ⟨[.reference], (nullingMethod slot).entryFrame.locals⟩
  | 2 => some ⟨[], (nullingMethod slot).entryFrame.locals.store slot.toNat .reference⟩
  | _ => none

theorem kinded_nullingMethod (slot : UInt16) : (nullingMethod slot).code.Kinded
    (nullingMethod slot).entryFrame (nullingFrames slot) where
  entry := ⟨_, rfl, .refl⟩
  step := by
    intro p i f hi hf
    match p with
    | 0 =>
      cases hi
      cases hf
      refine ⟨_, rfl, fun _ => ⟨_, rfl, .refl⟩, ?_⟩
      intro l hl
      cases hl
    | 1 =>
      cases hi
      cases hf
      refine ⟨_, rfl, fun _ => ⟨_, rfl, .refl⟩, ?_⟩
      intro l hl
      cases hl
    | 2 =>
      cases hi
      cases hf
      refine ⟨_, rfl, ?_, ?_⟩
      · intro hgo
        cases hgo
      · intro l hl
        cases hl
    | p + 3 => cases hf

def argumentHandler : Handler where
  reference := ⟨.number, .valueOf, ⟨[.int], none⟩⟩
  body := ⟨.valueOf, ⟨[.int], none⟩, Flags.ofBits _ staticFlag, 0, 1, [.ret none]⟩

/-- Hands the argument to a handler before the method returns. -/
def argumentDirective : Directive :=
  ⟨.object, ⟨.valueOf, none⟩, argumentHandler.reference, 0, false,
    .inject ⟨.returns, 0, .before⟩ false⟩

def slotHandler : Handler where
  reference := ⟨.number, .get, ⟨[.int], some .int⟩⟩
  body := ⟨.get, ⟨[.int], some .int⟩, Flags.ofBits _ staticFlag, 1, 1,
    [.loadLocal 0 .int, .ret (some .int)]⟩

/-- Filters the first slot before the method returns. -/
def slotDirective : Directive :=
  { argumentDirective with
    handler := slotHandler.reference
    action := .modifyVariable ⟨.returns, 0, .before⟩ (some 0) }

def argumentProvider : HandlerProvider := fun reference =>
  if reference = argumentHandler.reference then some argumentHandler.body
  else if reference = slotHandler.reference then some slotHandler.body
  else none

def nullingClass (slot : UInt16) : ClassDefinition :=
  { ClassDefinition.ofName .object with methods := [nullingMethod slot] }

/-- The argument is in its slot wherever control comes, if another slot is written. -/
theorem findsKinds_argumentDirective :
    argumentDirective.FindsKinds .standard (nullingMethod 1) (nullingFrames 1) := by
  have hkept : ∀ p f, (nullingMethod 1).code.handed (nullingMethod 1).entryFrame
      (nullingFrames 1) p = some f → f.locals.Holds 0 .int := by
    intro p f hf
    match p with
    | 0 =>
      cases hf
      decide
    | 1 =>
      cases hf
      decide
    | 2 =>
      cases hf
      decide
    | 3 => cases hf
    | p + 4 => cases hf
  have hargument : ∀ index slot t, (nullingMethod 1).argumentSlot? index = some (slot, t) →
      slot = 0 ∧ t = .int := by
    intro index slot t hslot
    cases index with
    | zero =>
      cases hslot
      exact ⟨rfl, rfl⟩
    | succ index => cases hslot
  intro place slot k hreads f hf
  cases hreads with
  | argument _ _ _ _ hslot =>
    obtain ⟨rfl, rfl⟩ := hargument _ _ _ hslot
    exact hkept _ f hf
  | filtered haction => cases haction

theorem nullingMethod_kinds_preserved :
    (weaveOne .standard argumentProvider (nullingClass 1) 0 argumentDirective).2.1.status =
      .applied ∧
    ∃ m, (weaveOne .standard argumentProvider (nullingClass 1) 0
      argumentDirective).1.methods[0]? = some m ∧ m.KindCorrect :=
  ⟨by decide +kernel, kinds_preserved (.inl ⟨_, _, rfl⟩) rfl (kinded_nullingMethod 1)
    findsKinds_argumentDirective⟩

/-- A load right after a store of another kind to its slot finds no value of its kind. -/
theorem not_kindCorrect_of_store_load {rest : Code} {k k' : ValueKind} {slot : UInt16}
    {c : Constant} (hk : k ≠ k')
    (hcode : m.code = .pushConstant c :: .storeLocal slot k :: .loadLocal slot k' :: rest) :
    ¬ m.KindCorrect := by
  rintro ⟨T, hkinds⟩
  rw [hcode] at hkinds
  obtain ⟨f, hf, -⟩ := hkinds.entry
  obtain ⟨_, -, hstored, -⟩ := hkinds.step 0 _ f rfl hf
  obtain ⟨f, hf, -⟩ := hstored rfl
  obtain ⟨g, hg, hloaded, -⟩ := hkinds.step 1 _ f rfl hf
  obtain ⟨f', hf', hbelow⟩ := hloaded rfl
  obtain ⟨_, hload, -⟩ := hkinds.step 2 _ f' rfl hf'
  have hlocals : some (f.locals.store slot.toNat k) = some g.locals :=
    (Instruction.kindsAfter?_eq_some.1 hg).2
  have hheld := (Instruction.kindsAfter?_eq_some.1 hload).2
  simp only [Instruction.localsAfter?] at hheld
  split at hheld
  · rename_i hholds
    have hslot := hbelow.locals _ _ hholds.1
    rw [← Option.some.inj hlocals, SlotKinds.holds_store.1] at hslot
    exact hk (SlotKind.value.inj (Option.some.inj hslot))
  · cases hheld

/-- A slot with another value in it is read all the same, be it a parameter's or a given one. -/
theorem nullingMethod_kinds_lost :
    (nullingMethod 0).KindCorrect ∧ (∀ r, .raw r ∉ (nullingMethod 0).code) ∧
    ∀ d ∈ [argumentDirective, slotDirective],
      (weaveOne .standard argumentProvider (nullingClass 0) 0 d).2.1.status = .applied ∧
      ∃ m, (weaveOne .standard argumentProvider (nullingClass 0) 0 d).1.methods = [m] ∧
        ¬ m.KindCorrect := by
  have hargument : (weaveOne .standard argumentProvider (nullingClass 0) 0
      argumentDirective).1.methods = [{ nullingMethod 0 with
        code := [.pushConstant .null, .storeLocal 0 .reference, .loadLocal 0 .int,
          argumentHandler.call, .ret none] }] := by
    decide +kernel
  have hslot : (weaveOne .standard argumentProvider (nullingClass 0) 0
      slotDirective).1.methods = [{ nullingMethod 0 with
        code := [.pushConstant .null, .storeLocal 0 .reference, .loadLocal 0 .int,
          slotHandler.call, .storeLocal 0 .int, .ret none] }] := by
    decide +kernel
  refine ⟨⟨_, kinded_nullingMethod 0⟩, by simp [nullingMethod], ?_⟩
  simp only [List.forall_mem_cons, List.not_mem_nil, false_implies, implies_true, and_true]
  refine ⟨⟨by decide +kernel, _, hargument, ?_⟩, by decide +kernel, _, hslot, ?_⟩
  · exact not_kindCorrect_of_store_load (by decide) rfl
  · exact not_kindCorrect_of_store_load (by decide) rfl

end Weaver

end CodeWeaving
