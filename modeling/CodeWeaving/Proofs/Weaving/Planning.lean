import CodeWeaving.Proofs.Weaving.FreshLabels
import CodeWeaving.Proofs.Weaving.HandlerCode
import CodeWeaving.Proofs.Weaving.Runs
import CodeWeaving.Proofs.Weaving.Sites

/-! What the ways of weaving plan: at every site an edit that suits the instruction there, with no
label but the next one that is free. -/
namespace CodeWeaving

open Code

namespace Plan

/-- An edit planned for an instruction, and the supply left after it. -/
structure Suited (supply : Supply) (a : Anchor) (i : Instruction) (e : Edit) (left : Supply) :
    Prop where
  anchor : e.anchor = a
  suits : e.Suits i
  labels : e.code.placed = [] ∧ left.label = supply.label ∨
    e.code.placed = [supply.label] ∧ left.label = supply.label.next

/-- Edits each at an instruction of the stream that no other one is for. -/
structure Apart (s : CodeStream) (es : List Edit) : Prop where
  names : ∀ e ∈ es, ∃ i, s.Names e.anchor i
  anchors : (es.map Edit.anchor).Nodup

/-- Edits that can be carried out together: each at an instruction of the stream that no other one
is for, with labels of its own from the first free one on. -/
structure Ready (s : CodeStream) (first : Label) (es : List Edit) : Prop where
  sites : ∀ e ∈ es, ∃ i, s.Names e.anchor i ∧ e.Suits i
  anchors : (es.map Edit.anchor).Nodup
  labels : ∃ k ≤ es.length, es.flatMap (fun e => e.code.placed) = first.run k

variable {α : Type} {s : CodeStream} {sites : List α} {anchor : α → Anchor}
  {edit : Supply → α → Traced (Edit × Supply)} {supply left : Supply} {es : List Edit}
  {m : Method} {p : Plan}

theorem Ready.apart {first : Label} (h : Ready s first es) : Apart s es :=
  ⟨fun e he => (h.sites e he).imp fun _ hi => hi.1, h.anchors⟩

theorem anchors_of_editSites
    (hedit : ∀ supply a, a ∈ sites → ∀ e left, (edit supply a).result = .ok (e, left) →
      e.anchor = anchor a)
    (h : (editSites edit supply sites).result = .ok (es, left)) :
    es.map Edit.anchor = sites.map anchor := by
  induction sites generalizing supply es left with
  | nil =>
    cases h
    rfl
  | cons a sites ih =>
    simp only [editSites, Traced.bind_eq_ok] at h
    obtain ⟨⟨e, between⟩, he, ⟨rest, left'⟩, hrest, h⟩ := h
    cases h
    rw [List.map_cons, List.map_cons, hedit _ _ List.mem_cons_self _ _ he,
      ih (fun supply a ha => hedit supply a (List.mem_cons_of_mem _ ha)) hrest]

theorem editSites_eq_ok
    (hedit : ∀ supply a, a ∈ sites → ∀ e left, (edit supply a).result = .ok (e, left) →
      ∃ i, s.Names (anchor a) i ∧ Suited supply (anchor a) i e left)
    (h : (editSites edit supply sites).result = .ok (es, left)) :
    (∀ e ∈ es, ∃ i, s.Names e.anchor i ∧ e.Suits i) ∧
      ∃ k ≤ es.length, es.flatMap (fun e => e.code.placed) = supply.label.run k := by
  induction sites generalizing supply es left with
  | nil =>
    cases h
    exact ⟨by simp, 0, Nat.le_refl _, rfl⟩
  | cons a sites ih =>
    simp only [editSites, Traced.bind_eq_ok] at h
    obtain ⟨⟨e, between⟩, he, ⟨rest, left'⟩, hrest, h⟩ := h
    cases h
    obtain ⟨i, hi, hsuited⟩ := hedit _ _ List.mem_cons_self _ _ he
    obtain ⟨hsites, k, hk, hlabels⟩ :=
      ih (fun supply a ha => hedit supply a (List.mem_cons_of_mem _ ha)) hrest
    refine ⟨?_, ?_⟩
    · intro f hf
      rcases List.mem_cons.1 hf with rfl | hf
      · exact ⟨i, hsuited.anchor ▸ hi, hsuited.suits⟩
      · exact hsites f hf
    · rcases hsuited.labels with ⟨hplaced, hlabel⟩ | ⟨hplaced, hlabel⟩
      · exact ⟨k, by simp; omega, by simp [hplaced, hlabels, hlabel]⟩
      · exact ⟨k + 1, by simp; omega, by simp [hplaced, hlabels, hlabel, Label.run]⟩

/-- A plan of one edit for each site keeps the edits apart if the sites are. -/
theorem apart_of_ofSites (hnodup : (sites.map anchor).Nodup)
    (hnames : ∀ a ∈ sites, ∃ i, s.Names (anchor a) i)
    (hedit : ∀ supply a, a ∈ sites → ∀ e left, (edit supply a).result = .ok (e, left) →
      e.anchor = anchor a)
    (h : (ofSites m sites edit).result = .ok p) :
    ∃ es slots, p = .edits es slots ∧ Apart s es := by
  obtain ⟨⟨es, left⟩, hes, h⟩ := Traced.bind_eq_ok.1 h
  cases h
  have hanchors := anchors_of_editSites hedit hes
  refine ⟨es, left.slots, rfl, fun e he => ?_, hanchors ▸ hnodup⟩
  obtain ⟨a, ha, heq⟩ := List.mem_map.1 (hanchors ▸ List.mem_map_of_mem he)
  exact heq ▸ hnames a ha

/-- A plan of one edit for each site is ready if each edit suits its site. -/
theorem ready_of_ofSites (hnodup : (sites.map anchor).Nodup)
    (hedit : ∀ supply a, a ∈ sites → ∀ e left, (edit supply a).result = .ok (e, left) →
      ∃ i, s.Names (anchor a) i ∧ Suited supply (anchor a) i e left)
    (h : (ofSites m sites edit).result = .ok p) :
    ∃ es slots, p = .edits es slots ∧ Ready s m.freeLabel es := by
  obtain ⟨⟨es, left⟩, hes, h⟩ := Traced.bind_eq_ok.1 h
  cases h
  obtain ⟨hsites, hlabels⟩ := editSites_eq_ok hedit hes
  have hanchors : es.map Edit.anchor = sites.map anchor := by
    refine anchors_of_editSites (fun supply a ha e left he => ?_) hes
    obtain ⟨i, -, hsuited⟩ := hedit supply a ha e left he
    exact hsuited.anchor
  exact ⟨es, left.slots, rfl, hsites, hanchors ▸ hnodup, hlabels⟩

end Plan

theorem SlotAllocator.length_allocateAll {a b : SlotAllocator} {kinds : List ValueKind}
    {slots : List UInt16} (h : a.allocateAll kinds = .ok (slots, b)) :
    slots.length = kinds.length := by
  induction kinds generalizing a slots with
  | nil =>
    cases h
    rfl
  | cons k kinds ih =>
    simp only [allocateAll, bind_eq_ok] at h
    obtain ⟨⟨slot, a⟩, -, ⟨slots, b⟩, hrest, h⟩ := h
    cases h
    simp [ih hrest]

namespace Supply

variable {supply left : Supply} {k : ValueKind} {kinds : List ValueKind} {slot : UInt16}
  {slots : List UInt16}

theorem label_slot (h : supply.slot k = .ok (slot, left)) : left.label = supply.label := by
  obtain ⟨⟨slot, slots⟩, -, h⟩ := map_eq_ok.1 h
  cases h
  rfl

theorem label_slotsFor (h : supply.slotsFor kinds = .ok (slots, left)) :
    left.label = supply.label := by
  obtain ⟨⟨slots, slots'⟩, -, h⟩ := map_eq_ok.1 h
  cases h
  rfl

theorem length_slotsFor (h : supply.slotsFor kinds = .ok (slots, left)) :
    slots.length = kinds.length := by
  obtain ⟨⟨slots, slots'⟩, hall, h⟩ := map_eq_ok.1 h
  cases h
  exact SlotAllocator.length_allocateAll hall

end Supply

namespace Plan

variable {supply left : Supply} {a : Anchor} {i : Instruction} {n : Nat} {code : Code}

/-- Straight code before an instruction that leaves all it may touch to the instruction. -/
theorem suited_insertBefore (hcode : code.Turns n n) (hn : n ≤ i.effect.pops)
    (hlabel : left.label = supply.label) :
    Suited supply a i (.insertBefore a code) left where
  anchor := rfl
  suits _ hd := hcode.neutral (hn.trans hd)
  labels := .inl ⟨hcode.placed, hlabel⟩

/-- Straight code after an instruction that touches no more than the instruction has left. -/
theorem suited_insertAfter (hcode : code.Turns n n) (hn : n ≤ i.effect.pushes)
    (hlabel : left.label = supply.label) :
    Suited supply a i (.insertAfter a code) left where
  anchor := rfl
  suits _ hd := hcode.neutral (hn.trans hd)
  labels := .inl ⟨hcode.placed, hlabel⟩

end Plan

theorem Context.filterTypes_eq_ok {cx : Context} {filtered : Filtered}
    {types : ValueType × ValueType} (h : cx.filterTypes filtered = .ok types) :
    cx.handler.filter? = some types := by
  unfold filterTypes at h
  split at h <;> cases h
  assumption

namespace ModifyConstant

variable {cx : Context} {d : Draft} {m : Method} {c : ConstantMatch} {p : Plan}
  {parameter result : ValueType} {supply left : Supply} {site : Site} {e : Edit}

theorem editAt_eq_ok {literal : ValueType}
    (h : (editAt cx m literal parameter result supply site).result = .ok (e, left)) :
    ∃ code, cx.handler.filter literal parameter result = .ok code ∧
      e = .insertAfter site.anchor code ∧ left = supply := by
  simp only [editAt, Traced.bind_eq_ok, Traced.result_ofExcept] at h
  obtain ⟨-, -, code, hcode, h⟩ := h
  cases h
  exact ⟨code, hcode, rfl, rfl⟩

theorem plan_eq_ok (h : (plan cx d c).result = .ok p) : ∃ sites parameter result,
    d.stream.locateConstant c cx.settings.floatEpsilon = .ok sites ∧
      cx.handler.filter? = some (parameter, result) ∧
      (Plan.ofSites d.method sites (editAt cx d.method c.value.type parameter result)).result =
        .ok p := by
  simp only [plan, Traced.bind_eq_ok, Traced.result_ofExcept, Traced.unless_fail_eq_ok] at h
  obtain ⟨sites, hsites, -, ⟨parameter, result⟩, htypes, h⟩ := h
  exact ⟨sites, parameter, result, hsites, Context.filterTypes_eq_ok htypes, h⟩

/-- Whatever raw literals declare, no two edits are for the same one. -/
theorem apart_of_plan (h : (plan cx d c).result = .ok p) :
    ∃ es slots, p = .edits es slots ∧ Plan.Apart d.stream es := by
  obtain ⟨sites, parameter, result, hsites, -, h⟩ := plan_eq_ok h
  have hlocated := CodeStream.located_of_locateConstant hsites
  refine Plan.apart_of_ofSites hlocated.nodup (fun site hsite => ⟨_, hlocated.names site hsite⟩)
    (fun supply site _ e left he => ?_) h
  obtain ⟨code, -, rfl, -⟩ := editAt_eq_ok he
  rfl

theorem ready_of_plan (hliteral : ∀ i ∈ d.stream.instructions, i.declaresLiteral = true)
    (h : (plan cx d c).result = .ok p) :
    ∃ es slots, p = .edits es slots ∧ Plan.Ready d.stream d.method.freeLabel es := by
  obtain ⟨sites, parameter, result, hsites, hfilter, h⟩ := plan_eq_ok h
  have hlocated := CodeStream.located_of_locateConstant hsites
  refine Plan.ready_of_ofSites hlocated.nodup (fun supply site hsite e left he => ?_) h
  obtain ⟨code, hcode, rfl, rfl⟩ := editAt_eq_ok he
  have hnames := hlocated.names site hsite
  have hpushes := CodeStream.pushes_of_locateConstant hsites hsite
    (hliteral _ (List.mem_map_of_mem hnames.2))
  exact ⟨_, hnames, Plan.suited_insertAfter (Handler.turns_filter hfilter hcode) hpushes.ge rfl⟩

end ModifyConstant

namespace ModifyVariable

variable {cx : Context} {d : Draft} {m : Method} {point : InjectionPoint} {slot : Option UInt16}
  {parameter result : ValueType} {p : Plan} {k : ValueKind} {code : Code} {site : Site} {e : Edit}
  {supply left : Supply}

theorem editAt_eq_ok
    (h : (editAt cx m point slot parameter result supply site).result = .ok (e, left)) :
    editFor cx m point slot parameter result site = .ok e ∧ left = supply := by
  simp only [editAt, Traced.bind_eq_ok, Traced.result_ofExcept] at h
  obtain ⟨-, -, e, hedit, h⟩ := h
  cases h
  exact ⟨hedit, rfl⟩

theorem plan_eq_ok (h : (plan cx d point slot).result = .ok p) : ∃ parameter result sites,
    cx.handler.filter? = some (parameter, result) ∧
      Context.sites d (narrowed point parameter) = .ok sites ∧
      (Plan.ofSites d.method sites
        (editAt cx d.method (narrowed point parameter) slot parameter result)).result = .ok p := by
  simp only [plan, Traced.bind_eq_ok, Traced.result_ofExcept] at h
  obtain ⟨⟨parameter, result⟩, htypes, sites, hsites, h⟩ := h
  exact ⟨parameter, result, sites, Context.filterTypes_eq_ok htypes, hsites, h⟩

theorem kind_localType : (localType k parameter).kind = k := by
  unfold localType
  split
  · rename_i h
    rw [h.1, h.2]
  · rw [ValueType.kind_ofKind]

theorem turns_filter (htypes : cx.handler.filter? = some (parameter, result))
    (h : filter cx k parameter result = .ok code) : code.Turns k.width k.width := by
  have := Handler.turns_filter htypes h
  rwa [ValueType.width, kind_localType] at this

/-- A slot that the method uses is read, filtered and written back. -/
theorem editSlot_eq_ok (h : editSlot cx m point slot parameter result site = .ok e) :
    ∃ given code, slot = some given ∧ given.toNat + parameter.kind.width ≤ m.localsInUse ∧
      filter cx parameter.kind parameter result = .ok code ∧
      e = .insert point.placement site.anchor (.loadLocal given parameter.kind :: code ++
        [.storeLocal given parameter.kind]) := by
  unfold editSlot at h
  split at h
  · cases h
  · dsimp only at h
    split at h
    · cases h
    · obtain ⟨code, hcode, h⟩ := bind_eq_ok.1 h
      split at h <;> cases h
      exact ⟨_, code, rfl, not_lt.1 ‹_›, hcode, rfl⟩

theorem turns_filterSlot (given : UInt16) (htypes : cx.handler.filter? = some (parameter, result))
    (h : filter cx k parameter result = .ok code) :
    Turns (.loadLocal given k :: code ++ [.storeLocal given k]) 0 0 := by
  have := Handler.turns_filterSlot given htypes h
  rwa [kind_localType] at this

theorem suited_of_editFor (htypes : cx.handler.filter? = some (parameter, result))
    (h : editFor cx m point slot parameter result site = .ok e) :
    Plan.Suited supply site.anchor site.instruction e supply := by
  unfold editFor at h
  split at h
  · rename_i hi
    obtain ⟨code, hcode, rfl⟩ := map_eq_ok.1 h
    refine Plan.suited_insertBefore (turns_filter htypes hcode) ?_ rfl
    simp [hi, Instruction.effect]
  · rename_i hi
    obtain ⟨code, hcode, rfl⟩ := map_eq_ok.1 h
    exact Plan.suited_insertAfter (turns_filter htypes hcode) (by simp [hi, Instruction.effect]) rfl
  · obtain ⟨given, code, -, -, hcode, rfl⟩ := editSlot_eq_ok h
    have hturns := turns_filterSlot given htypes hcode
    cases point.placement
    · exact Plan.suited_insertBefore hturns (Nat.zero_le _) rfl
    · exact Plan.suited_insertAfter hturns (Nat.zero_le _) rfl

theorem ready_of_plan (h : (plan cx d point slot).result = .ok p) :
    ∃ es slots, p = .edits es slots ∧ Plan.Ready d.stream d.method.freeLabel es := by
  obtain ⟨parameter, result, sites, hfilter, hsites, h⟩ := plan_eq_ok h
  have hlocated := Context.located_of_sites hsites
  refine Plan.ready_of_ofSites hlocated.nodup (fun supply site hsite e left he => ?_) h
  obtain ⟨hedit, rfl⟩ := editAt_eq_ok he
  exact ⟨_, hlocated.names site hsite, suited_of_editFor hfilter hedit⟩

end ModifyVariable

namespace ValueType

/-- Slots that values of the types fill side by side. -/
def totalWidth (types : List ValueType) : Nat := ValueKind.totalWidth (types.map kind)

theorem totalWidth_split {types : List ValueType} {i : Nat} {t : ValueType}
    (h : types[i]? = some t) :
    t.width + totalWidth (types.drop (i + 1)) ≤ totalWidth types := by
  induction types generalizing i with
  | nil => simp at h
  | cons u types ih =>
    cases i with
    | zero =>
      cases h
      exact Nat.le_refl _
    | succ i =>
      have := ih h
      simp only [totalWidth, List.drop_succ_cons, List.map_cons, ValueKind.totalWidth] at this ⊢
      omega

end ValueType

theorem Instruction.totalWidth_le_pops (kind : InvokeKind) (m : MethodRef) :
    ValueType.totalWidth m.signature.parameters ≤ (invoke kind m).effect.pops :=
  Nat.le_add_left _ _

namespace ModifyArgument

variable {cx : Context} {d : Draft} {m : Method} {point : InjectionPoint} {index : Option UInt64}
  {parameter result modified : ValueType} {types above : List ValueType} {p : Plan} {code : Code}
  {supply left : Supply} {call : MethodRef} {site : CallSite} {e : Edit} {i : Nat}

theorem mem_candidates {t : ValueType} :
    (t, i) ∈ types.zipIdx.filter (fun x => x.1 = parameter) ↔
      types[i]? = some t ∧ t = parameter := by
  rw [List.mem_filter, List.mem_zipIdx_iff_getElem?, decide_eq_true_iff]

theorem inferIndex?_eq_some : inferIndex? types parameter = some i ↔
    types[i]? = some parameter ∧ ∀ j, types[j]? = some parameter → j = i := by
  constructor
  · intro h
    unfold inferIndex? at h
    split at h
    · rename_i t k hcandidates
      cases h
      have hi : (t, i) ∈ types.zipIdx.filter fun x => x.1 = parameter :=
        hcandidates ▸ List.mem_singleton_self _
      obtain ⟨hget, rfl⟩ := mem_candidates.1 hi
      refine ⟨hget, fun j hj => ?_⟩
      have hmem : (t, j) ∈ types.zipIdx.filter fun x => x.1 = t := mem_candidates.2 ⟨hj, rfl⟩
      rw [show types.zipIdx.filter (fun x => decide (x.1 = t)) = [(t, i)] from hcandidates] at hmem
      exact (Prod.mk.inj (List.mem_singleton.1 hmem)).2
    · cases h
  · rintro ⟨hget, hunique⟩
    have hnodup : (types.zipIdx.filter fun x => x.1 = parameter).Nodup := by
      refine List.Nodup.filter _ (.of_map Prod.snd ?_)
      rw [List.zipIdx_map_snd]
      exact List.nodup_range'
    have hcandidates : types.zipIdx.filter (fun x => x.1 = parameter) = [(parameter, i)] := by
      refine List.perm_singleton.1 ((List.perm_ext_iff_of_nodup hnodup
        (List.nodup_singleton _)).2 fun x => ?_)
      obtain ⟨t, j⟩ := x
      rw [mem_candidates, List.mem_singleton, Prod.mk.injEq]
      constructor
      · rintro ⟨hj, rfl⟩
        exact ⟨rfl, hunique j hj⟩
      · rintro ⟨rfl, rfl⟩
        exact ⟨hget, rfl⟩
    unfold inferIndex?
    split
    · rename_i heq
      cases hcandidates.symm.trans heq
      rfl
    · rename_i hnone
      exact absurd hcandidates (hnone _ _)

theorem lt_of_inferIndex? (h : inferIndex? types parameter = some i) : i < types.length :=
  (List.getElem?_eq_some_iff.1 (inferIndex?_eq_some.1 h).1).1

theorem lt_of_chooseIndex (h : chooseIndex call index parameter = .ok i) :
    i < call.signature.parameters.length := by
  unfold chooseIndex at h
  split at h
  · split at h <;> cases h
    assumption
  · split at h <;> cases h
    exact lt_of_inferIndex? ‹_›

theorem editAt_eq_ok
    (h : (editAt cx m index parameter result supply site).result = .ok (e, left)) :
    ∃ i modified code, chooseIndex site.call index parameter = .ok i ∧
      site.call.signature.parameters[i]? = some modified ∧
      codeFor cx parameter result modified (site.call.signature.parameters.drop (i + 1)) supply =
        .ok (code, left) ∧ e = .insertBefore site.anchor code := by
  simp only [editAt, Traced.bind_eq_ok, Traced.result_ofExcept] at h
  obtain ⟨i, hi, -, -, ⟨code, left⟩, hcode, h⟩ := h
  cases h
  have hget := List.getElem?_eq_getElem (lt_of_chooseIndex hi)
  rw [hget, Option.getD_some] at hcode
  exact ⟨i, _, code, hi, hget, hcode, rfl⟩

theorem plan_eq_ok (h : (plan cx d point index).result = .ok p) : ∃ sites parameter result,
    CallSite.locate d point = .ok sites ∧ cx.handler.filter? = some (parameter, result) ∧
      (Plan.ofSites d.method sites (editAt cx d.method index parameter result)).result =
        .ok p := by
  simp only [plan, Traced.bind_eq_ok, Traced.result_ofExcept] at h
  obtain ⟨sites, hsites, ⟨parameter, result⟩, htypes, h⟩ := h
  exact ⟨sites, parameter, result, hsites, Context.filterTypes_eq_ok htypes, h⟩

theorem codeFor_eq_ok (htypes : cx.handler.filter? = some (parameter, result))
    (h : codeFor cx parameter result modified above supply = .ok (code, left)) :
    code.Turns (modified.width + ValueType.totalWidth above)
      (modified.width + ValueType.totalWidth above) ∧ left.label = supply.label := by
  simp only [codeFor, bind_eq_ok] at h
  obtain ⟨⟨slots, supply'⟩, hslots, filter, hfilter, h⟩ := h
  cases h
  have hlen : slots.length = above.length := by
    rw [Supply.length_slotsFor hslots, List.length_map]
  have hstore := (Spill.turns_store (slots.zip above)).above modified.width
  have hload := (Spill.turns_load (slots.zip above)).above modified.width
  rw [Spill.width_zip hlen] at hstore hload
  exact ⟨(hstore.append (Handler.turns_filter htypes hfilter)).append hload,
    Supply.label_slotsFor hslots⟩

theorem ready_of_plan (h : (plan cx d point index).result = .ok p) :
    ∃ es slots, p = .edits es slots ∧ Plan.Ready d.stream d.method.freeLabel es := by
  obtain ⟨sites, parameter, result, hsites, hfilter, h⟩ := plan_eq_ok h
  obtain ⟨hnodup, hcalls⟩ := CallSite.located_of_locate hsites
  refine Plan.ready_of_ofSites hnodup (fun supply site hsite e left he => ?_) h
  obtain ⟨i, modified, code, -, hmodified, hcode, rfl⟩ := editAt_eq_ok he
  obtain ⟨kind, hnames⟩ := hcalls site hsite
  obtain ⟨hturns, hlabel⟩ := codeFor_eq_ok hfilter hcode
  exact ⟨_, hnames, Plan.suited_insertBefore hturns
    ((ValueType.totalWidth_split hmodified).trans (Instruction.totalWidth_le_pops kind _)) hlabel⟩

end ModifyArgument

namespace ModifyArguments

variable {cx : Context} {d : Draft} {m : Method} {point : InjectionPoint} {view : ClassName}
  {viewSlot : UInt16} {place : Nat} {spill : Spill} {types arguments : List ValueType} {p : Plan}
  {code : Code} {supply left : Supply} {site : CallSite} {e : Edit}

theorem editAt_eq_ok (h : (editAt cx m supply site).result = .ok (e, left)) :
    ∃ code, codeFor cx site.call.signature.parameters supply = .ok (code, left) ∧
      e = .insertBefore site.anchor code := by
  simp only [editAt, Traced.bind_eq_ok, Traced.result_ofExcept] at h
  obtain ⟨-, -, ⟨code, left⟩, hcode, h⟩ := h
  cases h
  exact ⟨code, hcode, rfl⟩

theorem plan_eq_ok (h : (plan cx d point).result = .ok p) :
    cx.handler.parameters = [.object cx.settings.argumentView] ∧
      ∃ sites, CallSite.locate d point = .ok sites ∧
        (Plan.ofSites d.method sites (editAt cx d.method)).result = .ok p := by
  simp only [plan, Traced.bind_eq_ok, Traced.result_ofExcept, Traced.unless_fail_eq_ok] at h
  exact ⟨not_not.1 h.1, h.2⟩

theorem turns_newView (count : Nat) : (newView view count).Turns 0 1 := fun _ => rfl

theorem turns_fill (h : fill view viewSlot place spill = .ok code) : code.Turns 0 0 := by
  induction spill generalizing place code with
  | nil =>
    cases h
    exact .nil
  | cons v spill ih =>
    obtain ⟨slot, t⟩ := v
    simp only [fill, bind_eq_ok] at h
    obtain ⟨conversion, hconversion, rest, hrest, h⟩ := h
    cases h
    have hview : Turns [.loadLocal viewSlot .reference,
        .pushConstant (.int (Int32.ofNat place))] 0 2 := fun _ => rfl
    have hvalue := ((Instruction.turns_loadLocal slot t.kind).append
      (ValueType.turns_coerce hconversion)).above 2
    have hset : Turns [callView view .virtual .set [.int, .object .object] none] 3 0 :=
      fun _ => rfl
    simpa using ((hview.append hvalue).append hset).append (ih hrest)

theorem turns_empty (h : empty view viewSlot place types = .ok code) :
    code.Turns 0 (ValueType.totalWidth types) := by
  induction types generalizing place code with
  | nil =>
    cases h
    exact .nil
  | cons t types ih =>
    simp only [empty, bind_eq_ok] at h
    obtain ⟨conversion, hconversion, rest, hrest, h⟩ := h
    cases h
    have hget : Turns [.loadLocal viewSlot .reference, .pushConstant (.int (Int32.ofNat place)),
        callView view .virtual .get [.int] (some (.object .object))] 0 1 := fun _ => rfl
    exact (hget.append (ValueType.turns_coerce hconversion)).append ((ih hrest).above t.width)

theorem codeFor_eq_ok (hview : cx.handler.parameters = [.object cx.settings.argumentView])
    (h : codeFor cx arguments supply = .ok (code, left)) :
    code.Turns (ValueType.totalWidth arguments) (ValueType.totalWidth arguments) ∧
      left.label = supply.label := by
  simp only [codeFor, bind_eq_ok] at h
  obtain ⟨⟨slots, supply₁⟩, hslots, ⟨viewSlot, supply₂⟩, hslot, filling, hfilling, emptying,
    hemptying, h⟩ := h
  cases h
  have hlen : slots.length = arguments.length := by
    rw [Supply.length_slotsFor hslots, List.length_map]
  have hstore := Spill.turns_store (slots.zip arguments)
  rw [Spill.width_zip hlen] at hstore
  have hcall := cx.handler.turns_call
  have hargument : cx.handler.argumentWidth = 1 := by
    simp [Handler.argumentWidth, hview, ValueKind.totalWidth, ValueType.object, ValueType.kind,
      ValueKind.width]
  rw [hargument] at hcall
  have hload := (Instruction.turns_loadLocal viewSlot .reference).above cx.handler.receiverWidth
  refine ⟨?_, (Supply.label_slot hslot).trans (Supply.label_slotsFor hslots)⟩
  refine .append (.append (.append (.append (.append (.append (.append hstore (turns_newView _))
    (Instruction.turns_storeLocal viewSlot .reference)) (turns_fill hfilling))
    cx.handler.turns_instantiate) (hload.append hcall)) cx.handler.turns_dropResult)
    (turns_empty hemptying)

theorem ready_of_plan (h : (plan cx d point).result = .ok p) :
    ∃ es slots, p = .edits es slots ∧ Plan.Ready d.stream d.method.freeLabel es := by
  obtain ⟨hview, sites, hsites, h⟩ := plan_eq_ok h
  obtain ⟨hnodup, hcalls⟩ := CallSite.located_of_locate hsites
  refine Plan.ready_of_ofSites hnodup (fun supply site hsite e left he => ?_) h
  obtain ⟨code, hcode, rfl⟩ := editAt_eq_ok he
  obtain ⟨kind, hnames⟩ := hcalls site hsite
  obtain ⟨hturns, hlabel⟩ := codeFor_eq_ok hview hcode
  exact ⟨_, hnames, Plan.suited_insertBefore hturns (Instruction.totalWidth_le_pops kind _) hlabel⟩

end ModifyArguments

namespace Redirect

variable {cx : Context} {d : Draft} {m : Method} {point : InjectionPoint} {i : Instruction}
  {x : Exchange} {produced : Option ValueType} {p : Plan} {code : Code} {supply left : Supply}
  {site : Site} {e : Edit}

theorem editAt_eq_ok (h : (editAt cx m supply site).result = .ok (e, left)) :
    ∃ x code, exchange site.instruction = .ok x ∧
      x.consumed.length = cx.handler.parameters.length ∧
      replacement cx site.instruction x supply = .ok (code, left) ∧
      e = .replace site.anchor code := by
  simp only [editAt, Traced.bind_eq_ok, Traced.result_ofExcept, Traced.unless_fail_eq_ok] at h
  obtain ⟨x, hx, hcount, -, -, ⟨code, left⟩, hcode, h⟩ := h
  cases h
  exact ⟨x, code, hx, not_not.1 hcount, hcode, rfl⟩

theorem plan_eq_ok (h : (plan cx d point).result = .ok p) :
    ∃ sites, Context.sites d point = .ok sites ∧
      (Plan.ofSites d.method sites (editAt cx d.method)).result = .ok p := by
  simp only [plan, Traced.bind_eq_ok, Traced.result_ofExcept, Traced.unless_fail_eq_ok] at h
  exact h.2

/-- What is exchanged is what the instruction takes and leaves. -/
theorem exchange_eq_ok (h : exchange i = .ok x) : i.isPlain = true ∧
    i.effect.pops = ValueType.totalWidth x.consumed ∧
    i.effect.pushes = (x.produced.map ValueType.width).getD 0 := by
  unfold exchange at h
  split at h
  · split at h <;> cases h
    rename_i kind m _
    refine ⟨rfl, ?_, rfl⟩
    cases kind <;> simp [Instruction.effect, InvokeKind.hasReceiver, Signature.parameterLength,
      ValueType.totalWidth, ValueKind.totalWidth, ValueType.object, ValueType.kind,
      ValueKind.width]
  all_goals cases h
  all_goals exact ⟨rfl, rfl, rfl⟩

theorem settleResult_eq_ok (h : settleResult cx i produced = .ok code) :
    code.Turns cx.handler.resultWidth ((produced.map ValueType.width).getD 0) := by
  unfold settleResult at h
  unfold Handler.resultWidth
  split at h
  · rename_i hreturns
    cases h
    rw [hreturns]
    exact .nil
  · rename_i hreturns
    cases h
    rw [hreturns]
    exact Instruction.turns_drop _
  · cases h
  · rename_i hreturns
    rw [hreturns]
    exact ValueType.turns_coerce h

theorem replacement_eq_ok (hx : exchange i = .ok x)
    (hcount : x.consumed.length = cx.handler.parameters.length)
    (h : replacement cx i x supply = .ok (code, left)) :
    code.StandsFor i ∧ left.label = supply.label := by
  obtain ⟨hplain, hpops, hpushes⟩ := exchange_eq_ok hx
  simp only [replacement, bind_eq_ok] at h
  obtain ⟨⟨slots, supply'⟩, hslots, arguments, harguments, result, hresult, h⟩ := h
  cases h
  have hlen : slots.length = x.consumed.length := by
    rw [Supply.length_slotsFor hslots, List.length_map]
  have hload := Spill.turns_loadAs harguments (by simp [hlen, hcount])
  have hcall := ((cx.handler.turns_instantiate.append
    (hload.above cx.handler.receiverWidth)).append cx.handler.turns_call).append
    (settleResult_eq_ok hresult)
  refine ⟨⟨hplain, fun n => ?_⟩, Supply.label_slotsFor hslots⟩
  -- the operands go down first, so that too few of them are too few here as there
  simp only [List.append_assoc] at hcall ⊢
  rw [depthAfter?_append, Spill.depthAfter?_store, Spill.width_zip hlen]
  simp only [depthAfter?, hplain, hpops, true_and, Instruction.after, hpushes,
    ValueType.totalWidth]
  split
  · exact hcall _
  · rfl

theorem ready_of_plan (h : (plan cx d point).result = .ok p) :
    ∃ es slots, p = .edits es slots ∧ Plan.Ready d.stream d.method.freeLabel es := by
  obtain ⟨sites, hsites, h⟩ := plan_eq_ok h
  have hlocated := Context.located_of_sites hsites
  refine Plan.ready_of_ofSites hlocated.nodup (fun supply site hsite e left he => ?_) h
  obtain ⟨x, code, hx, hcount, hcode, rfl⟩ := editAt_eq_ok he
  obtain ⟨hstands, hlabel⟩ := replacement_eq_ok hx hcount hcode
  exact ⟨_, hlocated.names site hsite, rfl, hstands,
    .inl ⟨placed_of_depthAfter? hstands.straight, hlabel⟩⟩

end Redirect

namespace Inject

variable {cx : Context} {d : Draft} {m : Method} {point : InjectionPoint} {cancellable : Bool}
  {params : List Supplied} {token : ClassName} {slot : UInt16} {index : Nat} {skip : Label}
  {p : Plan} {code : Code} {supply left : Supply} {site : Site} {e : Edit}

theorem editAt_eq_ok
    (h : (editAt cx m point cancellable params supply site).result = .ok (e, left)) :
    ∃ code, codeFor cx m cancellable params supply = .ok (code, left) ∧
      e = .insert (placement point) site.anchor code := by
  simp only [editAt, Traced.bind_eq_ok, Traced.result_ofExcept, Traced.unless_fail_eq_ok] at h
  obtain ⟨-, -, -, ⟨code, left⟩, hcode, -, -, h⟩ := h
  cases h
  exact ⟨code, hcode, rfl⟩

/-- Slots of what a parameter of the handler is given. -/
def Supplied.width : Supplied → Nat
  | .token _ => 1
  | .argument type => type.width

theorem width_supplied (settings : Settings) (t : ValueType) :
    (supplied settings t).width = t.width := by
  unfold supplied
  split
  · split <;> rfl
  · rfl

theorem sum_width_supplied (cx : Context) :
    ((cx.handler.parameters.map (supplied cx.settings)).map Supplied.width).sum =
      cx.handler.argumentWidth := by
  simp [Handler.argumentWidth, ValueKind.totalWidth_eq_sum, Function.comp_def, width_supplied,
    ValueType.width]

theorem turns_newToken : (newToken cx m token cancellable).Turns 0 1 := by
  have hnew : Turns [.new token, .dup, .pushConstant (.string (cx.cls.text ++ "." ++ m.identity)),
      .pushConstant (.int (if cancellable then 1 else 0))] 0 4 := fun _ => rfl
  unfold newToken
  cases isReturnable cx token
  · exact (hnew.append .nil).append fun _ => rfl
  · exact (hnew.append ((turns_pushBoxedResult _).above 4)).append fun _ => rfl

theorem turns_loadSupplied (h : loadSupplied m slot index params = .ok code) :
    code.Turns 0 (params.map Supplied.width).sum := by
  induction params generalizing index code with
  | nil =>
    cases h
    exact .nil
  | cons param params ih =>
    cases param with
    | token cls =>
      simp only [loadSupplied, bind_eq_ok] at h
      obtain ⟨rest, hrest, h⟩ := h
      cases h
      exact (Instruction.turns_loadLocal slot .reference).append ((ih hrest).above 1)
    | argument type =>
      simp only [loadSupplied] at h
      split at h
      · cases h
      · rename_i slot t _
        simp only [bind_eq_ok] at h
        obtain ⟨conversion, hconversion, rest, hrest, h⟩ := h
        cases h
        have hvalue := (Instruction.turns_loadLocal slot t.kind).append
          (ValueType.turns_coerce hconversion)
        exact hvalue.append ((ih hrest).above type.width)

/-- A return from the method has its result on the stack. -/
theorem earlyReturn_eq_ok (h : earlyReturn cx m token slot = .ok code) :
    ∃ (leave : Code) (kind : _), code = leave ++ [.ret kind] ∧
      leave.Turns 0 (Instruction.ret kind).effect.pops := by
  unfold earlyReturn at h
  split at h
  · cases h
    exact ⟨[], none, rfl, .nil⟩
  · rename_i type _
    split at h
    · obtain ⟨conversion, hconversion, h⟩ := bind_eq_ok.1 h
      cases h
      have hvalue : Turns [.loadLocal slot .reference,
          .invoke .virtual ⟨token, .getReturnValue, ⟨[], some (.object .object)⟩⟩] 0 1 :=
        fun _ => rfl
      exact ⟨_, some type.kind, rfl, hvalue.append (ValueType.turns_coerce hconversion)⟩
    · cases h
      exact ⟨[type.pushZero], some type.kind, rfl, type.turns_pushZero⟩

/-- Where a method may be left, all else comes out as it went in. -/
theorem neutral_cancellation {call : Code} (hcall : call.Turns 0 0)
    (h : cancellation cx m token slot skip = .ok code) (n : Nat) :
    (call ++ code).Neutral n ∧ (call ++ code).placed = [skip] := by
  obtain ⟨returning, hreturning, h⟩ := bind_eq_ok.1 h
  cases h
  obtain ⟨leave, kind, rfl, hleave⟩ := earlyReturn_eq_ok hreturning
  have htest : Turns [.loadLocal slot .reference,
      .invoke .virtual ⟨token, .isCancelled, ⟨[], some .boolean⟩⟩] 0 1 := fun _ => rfl
  have hguarded : Neutral n (_ ++ .branch .ifZero skip :: (leave ++ [.ret kind, .label skip])) :=
    .guarded ((hcall.append htest) n) (hleave n) (Nat.le_add_left _ _)
  refine ⟨by simpa using hguarded, ?_⟩
  simp only [placed_append, placed_cons, hcall.placed, hleave.placed, Instruction.placed?]
  rfl

section

variable {arguments : Code}
  (hparams : params = cx.handler.parameters.map (supplied cx.settings))

include hparams

theorem turns_call (h : loadSupplied m slot index params = .ok arguments) :
    Turns (cx.handler.instantiate ++ arguments ++ [cx.handler.call] ++ cx.handler.dropResult)
      0 0 := by
  have harguments := (turns_loadSupplied h).above cx.handler.receiverWidth
  rw [hparams, sum_width_supplied] at harguments
  exact ((cx.handler.turns_instantiate.append harguments).append cx.handler.turns_call).append
    cx.handler.turns_dropResult

theorem turns_tokenCall (h : loadSupplied m slot index params = .ok arguments) :
    Turns (newToken cx m token cancellable ++ [.storeLocal slot .reference] ++
      cx.handler.instantiate ++ arguments ++ [cx.handler.call] ++ cx.handler.dropResult) 0 0 := by
  have htoken : Turns (newToken cx m token cancellable ++ [.storeLocal slot .reference]) 0 0 :=
    turns_newToken.append (Instruction.turns_storeLocal slot .reference)
  simpa using htoken.append (turns_call hparams h)

/-- Code for a call places a label if the call can cancel, the first that is free. -/
theorem codeFor_eq_ok (h : codeFor cx m cancellable params supply = .ok (code, left)) :
    (∀ n, code.Neutral n) ∧
      (canCancel cancellable params = false ∧ code.placed = [] ∧ left.label = supply.label ∨
        canCancel cancellable params = true ∧ code.placed = [supply.label] ∧
          left.label = supply.label.next) := by
  unfold codeFor at h
  split at h
  · rename_i hnone
    have hnever : canCancel cancellable params = false := by
      simp [canCancel, List.head?_eq_none_iff.1 hnone]
    obtain ⟨arguments, harguments, h⟩ := bind_eq_ok.1 h
    cases h
    have hcall := turns_call hparams harguments
    exact ⟨fun n => hcall.neutral (Nat.zero_le n), .inl ⟨hnever, hcall.placed, rfl⟩⟩
  · rename_i token htoken
    have hcan : canCancel cancellable params = cancellable := by
      obtain ⟨rest, hrest⟩ := List.head?_eq_some_iff.1 htoken
      simp [canCancel, hrest]
    simp only [tokenCall, bind_eq_ok] at h
    obtain ⟨⟨slot, supply'⟩, hslot, arguments, harguments, h⟩ := h
    have hlabel := Supply.label_slot hslot
    have hcall : Turns (newToken cx m token cancellable ++ [.storeLocal slot .reference] ++ _ ++
        arguments ++ _ ++ _) 0 0 := turns_tokenCall hparams harguments
    split at h
    · rename_i hcancellable
      obtain ⟨leave, hleave, h⟩ := bind_eq_ok.1 h
      cases h
      have hguarded := neutral_cancellation hcall hleave
      exact ⟨fun n => (hguarded n).1, .inr ⟨hcan.trans hcancellable, hlabel ▸ (hguarded 0).2,
        congrArg Label.next hlabel⟩⟩
    · rename_i hcancellable
      cases h
      exact ⟨fun n => hcall.neutral (Nat.zero_le n),
        .inl ⟨hcan.trans (Bool.eq_false_iff.2 hcancellable), hcall.placed, hlabel⟩⟩

end

theorem params_of_classify (h : classify cx m = .ok params) :
    params = cx.handler.parameters.map (supplied cx.settings) := by
  unfold classify at h
  dsimp only at h
  split at h
  · cases h
  · split at h <;> cases h
    rfl

/-- What is planned is one edit for each site, whether a cancellation is noted or not. -/
theorem sites_of_plan (h : (plan cx d point cancellable).result = .ok p) :
    ∃ sites params, Context.sites d point = .ok sites ∧ classify cx d.method = .ok params ∧
      (Plan.ofSites d.method sites (editAt cx d.method point cancellable params)).result =
        .ok p := by
  simp only [plan, Traced.bind_eq_ok, Traced.result_ofExcept, Traced.unless_fail_eq_ok,
    Context.note, Traced.result_noting] at h
  obtain ⟨sites, hsites, -, params, hparams, -, -, h⟩ := h
  exact ⟨sites, params, hsites, hparams, h⟩

theorem ready_of_plan (h : (plan cx d point cancellable).result = .ok p) :
    ∃ es slots, p = .edits es slots ∧ Plan.Ready d.stream d.method.freeLabel es := by
  obtain ⟨sites, params, hsites, hparams, h⟩ := sites_of_plan h
  have hlocated := Context.located_of_sites hsites
  refine Plan.ready_of_ofSites hlocated.nodup (fun supply site hsite e left he => ?_) h
  obtain ⟨code, hcode, rfl⟩ := editAt_eq_ok he
  obtain ⟨hneutral, hlabels⟩ := codeFor_eq_ok (params_of_classify hparams) hcode
  refine ⟨_, hlocated.names site hsite, ?_⟩
  have hplaced := hlabels.imp And.right And.right
  cases placement point
  · exact ⟨rfl, fun n _ => hneutral n, hplaced⟩
  · exact ⟨rfl, fun n _ => hneutral n, hplaced⟩

end Inject

namespace Weaver

variable {cx : Context} {d : Draft} {p : Plan}

/-- Whatever the way of weaving, but for new bodies, no two edits are for the same instruction. -/
theorem apart_of_plan (haction : cx.directive.action ≠ .overwrite)
    (h : (plan cx d).result = .ok p) :
    ∃ es slots, p = .edits es slots ∧ Plan.Apart d.stream es := by
  have hready {first : Label} (h : ∃ es slots, p = .edits es slots ∧ Plan.Ready d.stream first es) :
      ∃ es slots, p = .edits es slots ∧ Plan.Apart d.stream es := by
    obtain ⟨es, slots, hp, hready⟩ := h
    exact ⟨es, slots, hp, hready.apart⟩
  unfold plan at h
  split at h
  · exact hready (Inject.ready_of_plan h)
  · exact hready (Redirect.ready_of_plan h)
  · exact ModifyConstant.apart_of_plan h
  · exact hready (ModifyArgument.ready_of_plan h)
  · exact hready (ModifyArguments.ready_of_plan h)
  · exact hready (ModifyVariable.ready_of_plan h)
  · exact absurd ‹_› haction

/-- Whatever the way of weaving, but for new bodies, a plan is ready to be carried out. -/
theorem ready_of_plan (haction : cx.directive.action ≠ .overwrite)
    (hliteral : ∀ i ∈ d.stream.instructions, i.declaresLiteral = true)
    (h : (plan cx d).result = .ok p) :
    ∃ es slots, p = .edits es slots ∧ Plan.Ready d.stream d.method.freeLabel es := by
  unfold plan at h
  split at h
  · exact Inject.ready_of_plan h
  · exact Redirect.ready_of_plan h
  · exact ModifyConstant.ready_of_plan hliteral h
  · exact ModifyArgument.ready_of_plan h
  · exact ModifyArguments.ready_of_plan h
  · exact ModifyVariable.ready_of_plan h
  · exact absurd ‹_› haction

end Weaver

end CodeWeaving
