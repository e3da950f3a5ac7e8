import CodeWeaving.Proofs.Weaving.Layout
import CodeWeaving.Proofs.Weaving.RegisteredWeaving

/-! Sides: calls injected at the start of a method or at its returns go before the instructions
there, whichever side is written. Filters of a slot go on the side that is written. -/
namespace CodeWeaving

/-- An instruction with code on one side. -/
def Instruction.flanked (placement : Placement) (new : Code) (i : Instruction) : Code :=
  match placement with
  | .before => new ++ [i]
  | .after => i :: new

namespace Code

/-- Code with other code on one side of each instruction, given by its place. -/
def flanked (placement : Placement) (new : Nat → Code) (code : Code) : Code :=
  (code.numbered 0).flatMap fun x => x.2.flanked placement (new x.1)

/-- At some places, and only there, code with a call has been put right beside the instruction, all
on one side. -/
def CalledBeside (call : Instruction) (placement : Placement) (places : List Nat)
    (code woven : Code) : Prop :=
  ∃ new : Nat → Code, (∀ p ∈ places, call ∈ new p) ∧ (∀ p, p ∉ places → new p = []) ∧
    woven = code.flanked placement new

end Code

namespace CodeStream

variable {id p : Nat} {code : Code} {positions : List Nat}

theorem index_anchorAt (h : p < code.length) : ((ofList id code).anchorAt p).index = p := by
  have hentry : (ofList id code).entries[p]? = some (p, code[p]) := by
    rw [entries_ofList]
    exact Code.getElem?_numbered_zero.2 ⟨_, List.getElem?_eq_getElem h, rfl⟩
  rw [anchorAt, hentry]
  rfl

theorem index_sites (h : ∀ p ∈ positions, p < code.length) :
    ((ofList id code).sites positions).map (fun site => site.anchor.index) = positions := by
  have hbelow : ∀ p ∈ positions, p < (ofList id code).instructions.length := by
    rwa [instructions_ofList]
  calc ((ofList id code).sites positions).map (fun site => site.anchor.index)
      = (((ofList id code).sites positions).map Site.anchor).map Anchor.index := by
        rw [List.map_map]
        rfl
    _ = positions.map fun p => ((ofList id code).anchorAt p).index := by
        rw [map_anchor_sites hbelow, List.map_map]
        rfl
    _ = positions.map fun p => p := List.map_congr_left fun p hp => index_anchorAt (h p hp)
    _ = positions := List.map_id' positions

end CodeStream

/-- Sites of a method are at the positions of their point. -/
theorem Context.positions_of_sites {m : Method} {point : InjectionPoint} {sites : List Site}
    (h : Context.sites (Draft.ofMethod m) point = .ok sites) :
    point.positions m.code = .ok (sites.map fun site => site.anchor.index) := by
  obtain ⟨found, hfound, h⟩ := bind_eq_ok.1 h
  split at h <;> cases h
  rw [CodeStream.locate_eq, Draft.ofMethod, CodeStream.instructions_ofList] at hfound
  obtain ⟨places, hplaces, rfl⟩ := map_eq_ok.1 hfound
  rw [CodeStream.index_sites (InjectionPoint.lt_of_positions hplaces), hplaces]

namespace Plan

variable {es : List Edit} {first : Nat → Nat} {placement : Placement} {p : Nat}

/-- The new code of the edit for a place. -/
def codeAt (es : List Edit) (p : Nat) : Code :=
  ((es.find? fun e => e.anchor.index = p).map Edit.code).getD []

theorem exists_codeAt (h : p ∈ es.map fun e => e.anchor.index) :
    ∃ e ∈ es, codeAt es p = e.code := by
  obtain ⟨e, he, rfl⟩ := List.mem_map.1 h
  unfold codeAt
  cases hfind : es.find? fun f => f.anchor.index = e.anchor.index with
  | none => exact absurd (decide_eq_true rfl) (List.find?_eq_none.1 hfind e he)
  | some f => exact ⟨f, List.mem_of_find?_eq_some hfind, rfl⟩

theorem codeAt_of_notMem (h : p ∉ es.map fun e => e.anchor.index) : codeAt es p = [] := by
  have hnone : es.find? (fun e => e.anchor.index = p) = none :=
    List.find?_eq_none.2 fun e he heq => h (List.mem_map.2 ⟨e, he, of_decide_eq_true heq⟩)
  rw [codeAt, hnone]
  rfl

theorem map_snd_block_of_insert (hes : ∀ e ∈ es, ∃ a code, e = .insert placement a code)
    (x : Nat × Instruction) :
    (block es first x).map Prod.snd = x.2.flanked placement (codeAt es x.1) := by
  rw [block, codeAt]
  cases hfind : es.find? fun e => e.anchor.index = x.1 with
  | none => cases placement <;> rfl
  | some e =>
    obtain ⟨a, code, rfl⟩ := hes e (List.mem_of_find?_eq_some hfind)
    cases placement <;>
      simp [Edit.insert, Edit.expand, Edit.code, Instruction.flanked, Code.map_snd_numbered]

end Plan

namespace Weaver

variable {m : Method} {es : List Edit} {first : Nat → Nat} {u : Draft} {call : Instruction}
  {placement : Placement}

/-- The code of a method that all edits put a call on one side in. -/
theorem Laid.calledBeside (h : Laid m es first u)
    (hes : ∀ e ∈ es, ∃ a code, e = .insert placement a code ∧ call ∈ code) :
    Code.CalledBeside call placement (es.map fun e => e.anchor.index) m.code u.method.code := by
  refine ⟨Plan.codeAt es, fun p hp => ?_, fun p => Plan.codeAt_of_notMem, ?_⟩
  · obtain ⟨e, he, hcode⟩ := Plan.exists_codeAt hp
    obtain ⟨a, code, rfl, hcall⟩ := hes e he
    rw [hcode]
    cases placement <;> exact hcall
  · rw [← u.agrees, CodeStream.instructions, h.entries, Plan.layout, List.map_flatMap]
    exact List.flatMap_congr fun x _ =>
      Plan.map_snd_block_of_insert
        (fun e he => (hes e he).imp fun _ => Exists.imp fun _ => And.left) x

/-- One insertion for each site of a point, all on one side and each with a call. -/
theorem Laid.calledBeside_of_sites {point : InjectionPoint} {sites : List Site}
    {edit : Supply → Site → Traced (Edit × Supply)} {slots : SlotAllocator} (h : Laid m es first u)
    (hsites : Context.sites (Draft.ofMethod m) point = .ok sites)
    (hedit : ∀ supply site, site ∈ sites → ∀ e left, (edit supply site).result = .ok (e, left) →
      ∃ code, e = .insert placement site.anchor code ∧ call ∈ code)
    (hes : (Plan.ofSites m sites edit).result = .ok (.edits es slots)) :
    ∃ places, point.positions m.code = .ok places ∧ places.length = es.length ∧
      Code.CalledBeside call placement places m.code u.method.code := by
  have hanchors : es.map Edit.anchor = sites.map Site.anchor := by
    obtain ⟨⟨es', left⟩, hes', h'⟩ := Traced.bind_eq_ok.1 hes
    cases h'
    refine Plan.anchors_of_editSites (fun supply site hsite e left he => ?_) hes'
    obtain ⟨code, rfl, -⟩ := hedit supply site hsite e left he
    exact Edit.anchor_insert _ _ _
  have hplaces : es.map (fun e => e.anchor.index) = sites.map fun site => site.anchor.index := by
    have hindices := congrArg (List.map Anchor.index) hanchors
    rwa [List.map_map, List.map_map] at hindices
  refine ⟨_, Context.positions_of_sites hsites, ?_, ?_⟩
  · rw [← hplaces, List.length_map]
  · rw [← hplaces]
    exact h.calledBeside (Plan.forall_of_ofSites (fun supply site hsite e left he =>
      ⟨site.anchor, hedit supply site hsite e left he⟩) hes)

end Weaver

namespace Inject

variable {cx : Context} {m : Method} {point : InjectionPoint} {cancellable : Bool} {n : Nat}
  {u : Draft} {params : List Supplied} {supply left : Supply} {code : Code}

theorem call_mem_of_codeFor (h : codeFor cx m cancellable params supply = .ok (code, left)) :
    cx.handler.call ∈ code := by
  unfold codeFor at h
  split at h
  · obtain ⟨arguments, -, h⟩ := bind_eq_ok.1 h
    cases h
    simp
  · simp only [tokenCall, bind_eq_ok] at h
    obtain ⟨⟨slot, supply'⟩, -, arguments, -, h⟩ := h
    split at h
    · obtain ⟨leave, -, h⟩ := bind_eq_ok.1 h
      cases h
      simp
    · cases h
      simp

/-- Calls are put in at the places of the point, on the side that is for them. -/
theorem calledBeside_of_done (haction : cx.directive.action = .inject point cancellable)
    (h : (Weaver.weaveMethod cx).Done (Draft.ofMethod m) n u) :
    ∃ places, point.positions m.code = .ok places ∧ places.length = n ∧
      Code.CalledBeside cx.handler.call (placement point) places m.code u.method.code := by
  have hplan : Weaver.plan cx (Draft.ofMethod m) =
      plan cx (Draft.ofMethod m) point cancellable := by
    rw [Weaver.plan, haction]
  obtain ⟨es, slots, first, hes, rfl, hlaid⟩ :=
    Weaver.exists_laid_of_done (fun _ hp => ready_of_plan (hplan ▸ hp)) h
  obtain ⟨sites, params, hsites, -, hes⟩ := sites_of_plan (hplan ▸ hes)
  refine hlaid.calledBeside_of_sites hsites (fun supply site hsite e left he => ?_) hes
  obtain ⟨code, hcode, rfl⟩ := editAt_eq_ok he
  exact ⟨code, rfl, call_mem_of_codeFor hcode⟩

end Inject

theorem Handler.call_mem_of_filter {h : Handler} {value parameter result : ValueType} {code : Code}
    (hcode : h.filter value parameter result = .ok code) : h.call ∈ code := by
  simp only [filter, bind_eq_ok] at hcode
  obtain ⟨there, -, back, -, hcode⟩ := hcode
  cases hcode
  simp [callOnTop]

namespace ModifyVariable

variable {cx : Context} {m : Method} {point : InjectionPoint} {slot : Option UInt16} {n : Nat}
  {u : Draft} {parameter result : ValueType} {e : Edit} {site : Site}

theorem not_return_of_editSlot (h : editSlot cx m point slot parameter result site = .ok e)
    (hafter : point.placement = .after) : site.instruction.isReturn = false := by
  unfold editSlot at h
  split at h
  · cases h
  · dsimp only at h
    split at h
    · cases h
    · obtain ⟨code, -, h⟩ := bind_eq_ok.1 h
      split at h
      · cases h
      · rename_i hnot
        exact Bool.eq_false_iff.2 fun hreturn => hnot ⟨hafter, hreturn⟩

theorem editSlot_of_editFor (hselector : selectsLocals point.selector = false)
    (h : editFor cx m point slot parameter result site = .ok e) :
    editSlot cx m point slot parameter result site = .ok e := by
  unfold editFor at h
  rwa [hselector] at h

theorem narrowed_of_not_selectsLocals (h : selectsLocals point.selector = false) :
    narrowed point parameter = point := by
  unfold narrowed
  split
  · rename_i hselector
    rw [hselector] at h
    cases h
  · rfl

/-- Where no locals are selected the slot is filtered at the places of the point, on the side that
is written; not after a return. -/
theorem calledBeside_of_done (haction : cx.directive.action = .modifyVariable point slot)
    (hselector : selectsLocals point.selector = false)
    (h : (Weaver.weaveMethod cx).Done (Draft.ofMethod m) n u) :
    ∃ places, point.positions m.code = .ok places ∧ places.length = n ∧
      Code.CalledBeside cx.handler.call point.placement places m.code u.method.code ∧
      (point.placement = .after → ∀ p ∈ places, ∀ kind, m.code[p]? ≠ some (.ret kind)) := by
  have hplan : Weaver.plan cx (Draft.ofMethod m) = plan cx (Draft.ofMethod m) point slot := by
    rw [Weaver.plan, haction]
  obtain ⟨es, slots, first, hes, rfl, hlaid⟩ :=
    Weaver.exists_laid_of_done (fun _ hp => ready_of_plan (hplan ▸ hp)) h
  obtain ⟨parameter, result, sites, -, hsites, hes⟩ := plan_eq_ok (hplan ▸ hes)
  rw [narrowed_of_not_selectsLocals hselector] at hsites hes
  have hslot {supply left : Supply} {site : Site} {e : Edit}
      (he : (editAt cx m point slot parameter result supply site).result = .ok (e, left)) :=
    editSlot_of_editFor hselector (editAt_eq_ok he).1
  have hinserts : ∀ supply site, site ∈ sites → ∀ e left,
      (editAt cx m point slot parameter result supply site).result = .ok (e, left) →
        ∃ code, e = .insert point.placement site.anchor code ∧ cx.handler.call ∈ code := by
    intro supply site _ e left he
    obtain ⟨given, code, -, -, hcode, rfl⟩ := editSlot_eq_ok (hslot he)
    exact ⟨_, rfl, by simp [Handler.call_mem_of_filter hcode]⟩
  obtain ⟨places, hplaces, hlength, hbeside⟩ :=
    hlaid.calledBeside_of_sites hsites hinserts hes
  refine ⟨places, hplaces, hlength, hbeside, fun hafter p hp kind hget => ?_⟩
  cases hplaces.symm.trans (Context.positions_of_sites hsites)
  obtain ⟨site, hsite, rfl⟩ := List.mem_map.1 hp
  have hnames := (Context.located_of_sites hsites).names site hsite
  have hinstruction : site.instruction = .ret kind :=
    Option.some.inj ((CodeStream.getElem?_of_names_ofList hnames).symm.trans hget)
  obtain ⟨-, hplanned, -⟩ := Plan.planned_of_ofSites
    (fun _ _ _ _ he => (editAt_eq_ok he).2 ▸ Nat.le_refl _) hes
  obtain ⟨e, -, supply, left, he, -⟩ := hplanned site hsite
  have hnot := not_return_of_editSlot (hslot he) hafter
  rw [hinstruction] at hnot
  cases hnot

end ModifyVariable

end CodeWeaving
