import CodeWeaving.Proofs.Weaving.FreshSlots

/-! What woven code consists of. Of its own accord it pushes nothing but numbers, texts and zero
values, and it works on no locals but those handed out for it, arguments of the method, and a slot
that the directive itself names. -/
namespace CodeWeaving

open Code

/-- A literal that woven code pushes of its own accord. -/
inductive Constant.Made : Constant → Prop where
  | int (n : Int32) : Made (.int n)
  | string (s : String) : Made (.string s)
  | zero (k : ValueKind) : Made (zero k)

theorem Constant.Made.null : Made .null := .zero .reference

/-- An instruction of woven code that may read some locals and write some. -/
def Instruction.Made (reads writes : UInt16 → ValueKind → Prop) : Instruction → Prop
  | .pushConstant c => c.Made
  | .loadLocal slot k => reads slot k
  | .storeLocal slot k => writes slot k
  | .raw r => r.opcode ≠ Opcode.iinc
  | _ => True

/-- The local that an instruction names, by its first slot and a kind that fills as many. -/
def Instruction.local? : Instruction → Option (Nat × ValueKind)
  | .loadLocal slot k | .storeLocal slot k => some (slot.toNat, k)
  | .raw r =>
    if r.opcode = Opcode.iinc then r.operands.head?.map fun slot => (slot.toNat, .int) else none
  | _ => none

variable {reads writes : UInt16 → ValueKind → Prop}

/-- What may neither read locals nor write them names none. -/
theorem Instruction.local?_of_made {i : Instruction}
    (h : i.Made (fun _ _ => False) fun _ _ => False) : i.local? = none := by
  cases i with
  | loadLocal | storeLocal => exact h.elim
  | raw r => exact if_neg h
  | _ => rfl

namespace Code

variable {a b code : Code} {i : Instruction}

def Made (reads writes : UInt16 → ValueKind → Prop) (code : Code) : Prop :=
  ∀ i ∈ code, i.Made reads writes

theorem Made.mono {reads' writes' : UInt16 → ValueKind → Prop} (h : code.Made reads writes)
    (hreads : ∀ slot k, reads slot k → reads' slot k)
    (hwrites : ∀ slot k, writes slot k → writes' slot k) : code.Made reads' writes' := by
  intro i hi
  have hmade := h i hi
  cases i with
  | loadLocal slot k => exact hreads slot k hmade
  | storeLocal slot k => exact hwrites slot k hmade
  | _ => exact hmade

@[simp] theorem made_nil : Made reads writes [] := by simp [Made]

@[simp] theorem made_cons :
    Made reads writes (i :: code) ↔ i.Made reads writes ∧ code.Made reads writes :=
  List.forall_mem_cons

@[simp] theorem made_append :
    (a ++ b).Made reads writes ↔ a.Made reads writes ∧ b.Made reads writes :=
  List.forall_mem_append

end Code

namespace BaseType

theorem made_box (b : BaseType) : Made reads writes [b.box] := by simp [box, Instruction.Made]

theorem made_widen? {source target : BaseType} {code : Code}
    (h : source.widen? target = some code) : code.Made reads writes := by
  unfold widen? at h
  cases source <;> cases target <;> simp [kind] at h <;> subst h <;>
    simp [Instruction.Made] <;> decide

end BaseType

namespace ValueType

variable {source target : ValueType} {code : Code}

theorem made_convert? (h : source.convert? target = some code) : code.Made reads writes := by
  unfold convert? at h
  split at h
  · split at h
    · cases h
      exact made_nil
    · exact BaseType.made_widen? h
  · split at h <;> cases h
    exact BaseType.made_box _
  · cases h
  · cases h
    split <;> simp [BaseType.unbox, Instruction.Made]
  · cases h
  · split at h <;> cases h <;> simp [Instruction.Made]

/-- A conversion works on the stack alone. -/
theorem made_coerce (h : source.coerce target = .ok code) : code.Made reads writes :=
  made_convert? (coerce_eq_ok.1 h)

theorem made_pushZero (t : ValueType) : Made reads writes [t.pushZero] := by
  simpa [pushZero, Instruction.Made] using Constant.Made.zero t.kind

theorem made_pushBoxedZero (t : ValueType) : t.pushBoxedZero.Made reads writes := by
  cases t with
  | base b => exact made_append.2 ⟨made_pushZero (.base b), b.made_box⟩
  | ref r => simpa [pushBoxedZero, Instruction.Made] using Constant.Made.null

end ValueType

theorem made_pushBoxedResult (t : Option ValueType) : (pushBoxedResult t).Made reads writes := by
  cases t with
  | none => simpa [pushBoxedResult, Instruction.Made] using Constant.Made.null
  | some t => exact t.made_pushBoxedZero

theorem Instruction.made_drop (k : ValueKind) : Code.Made reads writes [drop k] := by
  cases k <;> simp [drop, ValueKind.width, Made]

namespace Handler

variable {h : Handler}

theorem made_instantiate : h.instantiate.Made reads writes := by
  unfold instantiate
  split <;> simp [Instruction.Made]

theorem made_call : Made reads writes [h.call] := by simp [call, Instruction.Made]

theorem made_dropResult : h.dropResult.Made reads writes := by
  unfold dropResult
  cases h.returns with
  | none => exact made_nil
  | some t => exact Instruction.made_drop t.kind

theorem made_callOnTop (top : ValueType) : (h.callOnTop top).Made reads writes := by
  unfold callOnTop tuckUnder
  refine made_append.2 ⟨?_, made_call⟩
  split
  · exact made_nil
  · refine made_append.2 ⟨made_instantiate, ?_⟩
    split <;> simp [Instruction.Made]

theorem made_filter {value parameter result : ValueType} {code : Code}
    (hcode : h.filter value parameter result = .ok code) : code.Made reads writes := by
  simp only [filter, bind_eq_ok] at hcode
  obtain ⟨there, hthere, back, hback, hcode⟩ := hcode
  cases hcode
  exact made_append.2 ⟨made_append.2 ⟨ValueType.made_coerce hthere, made_callOnTop parameter⟩,
    ValueType.made_coerce hback⟩

end Handler

namespace Spill

variable {s : Spill}

theorem made_load (hs : ∀ v ∈ s, reads v.1 v.2.kind) : s.load.Made reads writes := by
  intro i hi
  obtain ⟨v, hv, rfl⟩ := List.mem_map.1 hi
  exact hs v hv

theorem made_store (hs : ∀ v ∈ s, writes v.1 v.2.kind) : s.store.Made reads writes := by
  intro i hi
  obtain ⟨v, hv, rfl⟩ := List.mem_map.1 hi
  exact hs v (List.mem_reverse.1 hv)

theorem made_loadAs {targets : List ValueType} {code : Code}
    (hs : ∀ v ∈ s, reads v.1 v.2.kind) (h : s.loadAs targets = .ok code) :
    code.Made reads writes := by
  induction s generalizing targets code with
  | nil =>
    cases h
    exact made_nil
  | cons v s ih =>
    obtain ⟨hv, hrest⟩ := List.forall_mem_cons.1 hs
    obtain ⟨slot, t⟩ := v
    cases targets with
    | nil =>
      cases h
      exact made_nil
    | cons target targets =>
      simp only [loadAs, bind_eq_ok] at h
      obtain ⟨conversion, hconversion, rest, hcode, h⟩ := h
      cases h
      simpa using ⟨hv, ValueType.made_coerce hconversion, ih hrest hcode⟩

/-- Slots of values, and slots of their kinds. -/
theorem mem_zip_kinds {slots : List UInt16} {types : List ValueType} {v : UInt16 × ValueType}
    (h : v ∈ slots.zip types) : (v.1, v.2.kind) ∈ slots.zip (types.map ValueType.kind) := by
  rw [List.zip_map_right]
  exact List.mem_map_of_mem h

end Spill

namespace SlotAllocator

variable {a b c : SlotAllocator} {kinds kinds' : List ValueKind} {slots slots' : List UInt16}

theorem allocateAll_append (h : a.allocateAll kinds = .ok (slots, b))
    (h' : b.allocateAll kinds' = .ok (slots', c)) :
    a.allocateAll (kinds ++ kinds') = .ok (slots ++ slots', c) := by
  induction kinds generalizing a slots with
  | nil =>
    cases h
    exact h'
  | cons k kinds ih =>
    simp only [allocateAll, bind_eq_ok] at h
    obtain ⟨⟨slot, between⟩, hslot, ⟨rest, left⟩, hrest, h⟩ := h
    cases h
    rw [List.cons_append, allocateAll, hslot]
    change (allocateAll between (kinds ++ kinds') >>= _) = _
    rw [ih hrest]
    rfl

end SlotAllocator

namespace Supply

variable {supply left : Supply} {k : ValueKind} {kinds : List ValueKind} {slot : UInt16}
  {slots : List UInt16}

theorem allocateAll_of_slot (h : supply.slot k = .ok (slot, left)) :
    supply.slots.allocateAll [k] = .ok ([slot], left.slots) := by
  obtain ⟨⟨slot, slots⟩, hslot, h⟩ := map_eq_ok.1 h
  cases h
  rw [SlotAllocator.allocateAll, hslot]
  rfl

theorem allocateAll_of_slotsFor (h : supply.slotsFor kinds = .ok (slots, left)) :
    supply.slots.allocateAll kinds = .ok (slots, left.slots) := by
  obtain ⟨⟨slots, slots'⟩, hall, h⟩ := map_eq_ok.1 h
  cases h
  exact hall

end Supply

namespace Plan

variable {α : Type} {edit : Supply → α → Traced (Edit × Supply)} {supply left : Supply}
  {sites : List α} {es : List Edit} {e : Edit} {m : Method} {p : Plan} {kinds : List ValueKind}
  {takes : α → List ValueKind}

/-- Code that works on slots handed out for values of some kinds and on some locals besides. -/
def Uses (reads writes : UInt16 → ValueKind → Prop) (taken : List UInt16)
    (kinds : List ValueKind) (code : Code) : Prop :=
  code.Made (fun slot k => (slot, k) ∈ taken.zip kinds ∨ reads slot k)
    (fun slot k => (slot, k) ∈ taken.zip kinds ∨ writes slot k)

/-- An edit planned with slots handed out for values of some kinds. -/
def Takes (reads writes : UInt16 → ValueKind → Prop) (kinds : List ValueKind) (supply : Supply)
    (e : Edit) (left : Supply) : Prop :=
  ∃ taken, supply.slots.allocateAll kinds = .ok (taken, left.slots) ∧
    Uses reads writes taken kinds e.code

/-- Code that needs no slots. -/
theorem takes_nothing (h : e.code.Made reads writes) : Takes reads writes [] supply e supply :=
  ⟨[], rfl, h.mono (fun _ _ => .inr) fun _ _ => .inr⟩

theorem takes_of_editSites
    (hedit : ∀ supply site e left, (edit supply site).result = .ok (e, left) →
      Takes reads writes (takes site) supply e left)
    (h : (editSites edit supply sites).result = .ok (es, left)) :
    ∃ taken, supply.slots.allocateAll (sites.flatMap takes) = .ok (taken, left.slots) ∧
      ∀ e ∈ es, Uses reads writes taken (sites.flatMap takes) e.code := by
  induction sites generalizing supply es left with
  | nil =>
    cases h
    exact ⟨[], rfl, by simp⟩
  | cons site sites ih =>
    simp only [editSites, Traced.bind_eq_ok] at h
    obtain ⟨⟨e, between⟩, he, ⟨rest, left'⟩, hrest, h⟩ := h
    cases h
    obtain ⟨taken, hall, huses⟩ := hedit _ _ _ _ he
    obtain ⟨taken', hall', huses'⟩ := ih hrest
    have hzip : (taken ++ taken').zip (takes site ++ sites.flatMap takes) =
        taken.zip (takes site) ++ taken'.zip (sites.flatMap takes) :=
      List.zip_append (SlotAllocator.length_allocateAll hall)
    refine ⟨taken ++ taken', SlotAllocator.allocateAll_append hall hall',
      List.forall_mem_cons.2 ⟨?_, fun e' he' => ?_⟩⟩
    · rw [Uses, List.flatMap_cons, hzip]
      exact huses.mono (fun _ _ => .imp_left (List.mem_append_left _))
        fun _ _ => .imp_left (List.mem_append_left _)
    · rw [Uses, List.flatMap_cons, hzip]
      exact (huses' e' he').mono (fun _ _ => .imp_left (List.mem_append_right _))
        fun _ _ => .imp_left (List.mem_append_right _)

/-- A plan of edits whose slots are handed out one after another, from the first that the method
does not use. -/
def Spends (reads writes : UInt16 → ValueKind → Prop) (kinds : List ValueKind) (m : Method)
    (p : Plan) : Prop :=
  ∃ es slots taken, p = .edits es slots ∧
    (SlotAllocator.ofMethod m).allocateAll kinds = .ok (taken, slots) ∧
    ∀ e ∈ es, Uses reads writes taken kinds e.code

theorem Spends.mono {reads' writes' : UInt16 → ValueKind → Prop}
    (h : p.Spends reads writes kinds m) (hreads : ∀ slot k, reads slot k → reads' slot k)
    (hwrites : ∀ slot k, writes slot k → writes' slot k) : p.Spends reads' writes' kinds m := by
  obtain ⟨es, slots, taken, rfl, hall, huses⟩ := h
  exact ⟨es, slots, taken, rfl, hall, fun e he => (huses e he).mono
    (fun slot k => .imp_right (hreads slot k)) fun slot k => .imp_right (hwrites slot k)⟩

theorem spends_of_ofSites
    (hedit : ∀ supply site e left, (edit supply site).result = .ok (e, left) →
      Takes reads writes (takes site) supply e left)
    (h : (ofSites m sites edit).result = .ok p) :
    p.Spends reads writes (sites.flatMap takes) m := by
  obtain ⟨⟨es, left⟩, hes, h⟩ := Traced.bind_eq_ok.1 h
  cases h
  obtain ⟨taken, hall, huses⟩ := takes_of_editSites hedit hes
  exact ⟨es, left.slots, taken, rfl, hall, huses⟩

end Plan

section

variable {cx : Context} {d : Draft} {m : Method} {point : InjectionPoint} {p : Plan} {code : Code}
  {supply left : Supply} {e : Edit}

theorem ModifyConstant.spends_of_plan {c : ConstantMatch} (h : (plan cx d c).result = .ok p) :
    p.Spends reads writes [] d.method := by
  obtain ⟨sites, parameter, result, -, -, h⟩ := plan_eq_ok h
  have hnone : sites.flatMap (fun _ => ([] : List ValueKind)) = [] := by simp
  rw [← hnone]
  refine Plan.spends_of_ofSites (fun supply site e left he => ?_) h
  obtain ⟨code, hcode, rfl, rfl⟩ := editAt_eq_ok he
  exact Plan.takes_nothing (Handler.made_filter hcode)

namespace ModifyVariable

variable {slot : Option UInt16}

/-- The slot that a directive names itself, as far as the method uses it. -/
def Given (m : Method) (slot : Option UInt16) (n : UInt16) (k : ValueKind) : Prop :=
  slot = some n ∧ n.toNat + k.width ≤ m.localsInUse

theorem made_editFor {parameter result : ValueType} {site : Site}
    (h : editFor cx m point slot parameter result site = .ok e) :
    e.code.Made (Given m slot) (Given m slot) := by
  unfold editFor at h
  split at h
  · obtain ⟨code, hcode, rfl⟩ := map_eq_ok.1 h
    exact Handler.made_filter hcode
  · obtain ⟨code, hcode, rfl⟩ := map_eq_ok.1 h
    exact Handler.made_filter hcode
  · obtain ⟨given, code, hgiven, hbound, hcode, rfl⟩ := editSlot_eq_ok h
    have hmade : code.Made (Given m slot) (Given m slot) := Handler.made_filter hcode
    have hslot : Given m slot given parameter.kind := ⟨hgiven, hbound⟩
    cases point.placement <;>
      simpa [Edit.insert, Edit.code, Instruction.Made] using ⟨hslot, hmade, hslot⟩

theorem spends_of_plan (h : (plan cx d point slot).result = .ok p) :
    p.Spends (Given d.method slot) (Given d.method slot) [] d.method := by
  obtain ⟨parameter, result, sites, -, -, h⟩ := plan_eq_ok h
  have hnone : sites.flatMap (fun _ => ([] : List ValueKind)) = [] := by simp
  rw [← hnone]
  refine Plan.spends_of_ofSites (fun supply site e left he => ?_) h
  obtain ⟨hedit, rfl⟩ := editAt_eq_ok he
  exact Plan.takes_nothing (made_editFor hedit)

end ModifyVariable

namespace ModifyArgument

/-- Kinds of the arguments above the one to change. -/
def takes (index : Option UInt64) (parameter : ValueType) (site : CallSite) : List ValueKind :=
  match chooseIndex site.call index parameter with
  | .ok i => (site.call.signature.parameters.drop (i + 1)).map ValueType.kind
  | .error _ => []

theorem spends_of_plan {index : Option UInt64} {parameter result : ValueType}
    (hfilter : cx.handler.filter? = some (parameter, result))
    (h : (plan cx d point index).result = .ok p) : ∃ sites,
      CallSite.locate d point = .ok sites ∧
        p.Spends reads writes (sites.flatMap (takes index parameter)) d.method := by
  obtain ⟨sites, parameter', result', hsites, hfilter', h⟩ := plan_eq_ok h
  cases hfilter.symm.trans hfilter'
  refine ⟨sites, hsites, Plan.spends_of_ofSites (fun supply site e left he => ?_) h⟩
  obtain ⟨i, modified, code, hi, -, hcode, rfl⟩ := editAt_eq_ok he
  simp only [codeFor, bind_eq_ok] at hcode
  obtain ⟨⟨slots, supply'⟩, hslots, filter, hcode, h⟩ := hcode
  cases h
  rw [takes, hi]
  refine ⟨slots, Supply.allocateAll_of_slotsFor hslots, ?_⟩
  exact made_append.2 ⟨made_append.2 ⟨Spill.made_store fun v hv => .inl (Spill.mem_zip_kinds hv),
    Handler.made_filter hcode⟩, Spill.made_load fun v hv => .inl (Spill.mem_zip_kinds hv)⟩

end ModifyArgument

namespace ModifyArguments

variable {view : ClassName} {viewSlot : UInt16} {place : Nat}

/-- Kinds of all arguments, and the view. -/
def takes (site : CallSite) : List ValueKind :=
  site.call.signature.parameters.map ValueType.kind ++ [.reference]

theorem made_fill {spill : Spill} (hview : reads viewSlot .reference)
    (hspill : ∀ v ∈ spill, reads v.1 v.2.kind) (h : fill view viewSlot place spill = .ok code) :
    code.Made reads writes := by
  induction spill generalizing place code with
  | nil =>
    cases h
    exact made_nil
  | cons v spill ih =>
    obtain ⟨hv, hbelow⟩ := List.forall_mem_cons.1 hspill
    obtain ⟨slot, t⟩ := v
    simp only [fill, bind_eq_ok] at h
    obtain ⟨conversion, hconversion, rest, hrest, h⟩ := h
    cases h
    simpa [callView, Instruction.Made] using
      ⟨hview, .int _, hv, ValueType.made_coerce hconversion, ih hbelow hrest⟩

theorem made_empty {types : List ValueType} (hview : reads viewSlot .reference)
    (h : empty view viewSlot place types = .ok code) : code.Made reads writes := by
  induction types generalizing place code with
  | nil =>
    cases h
    exact made_nil
  | cons t types ih =>
    simp only [empty, bind_eq_ok] at h
    obtain ⟨conversion, hconversion, rest, hrest, h⟩ := h
    cases h
    simpa [callView, Instruction.Made] using
      ⟨hview, .int _, ValueType.made_coerce hconversion, ih hrest⟩

theorem made_codeFor {spill : Spill} {types : List ValueType} {filling emptying : Code}
    (hspill : ∀ v ∈ spill, reads v.1 v.2.kind ∧ writes v.1 v.2.kind)
    (hview : reads viewSlot .reference ∧ writes viewSlot .reference)
    (hfilling : fill view viewSlot 0 spill = .ok filling)
    (hemptying : empty view viewSlot 0 types = .ok emptying) (count : Nat) :
    Code.Made reads writes (spill.store ++ newView view count ++
      [.storeLocal viewSlot .reference] ++ filling ++ cx.handler.instantiate ++
      [.loadLocal viewSlot .reference, cx.handler.call] ++ cx.handler.dropResult ++ emptying) := by
  simpa [newView, callView, Instruction.Made, Handler.call, Handler.made_instantiate,
    Handler.made_dropResult] using
    ⟨Spill.made_store fun v hv => (hspill v hv).2, .int _, hview.2,
      made_fill hview.1 (fun v hv => (hspill v hv).1) hfilling, hview.1,
      made_empty hview.1 hemptying⟩

theorem takes_of_editAt {site : CallSite}
    (h : (editAt cx m supply site).result = .ok (e, left)) :
    Plan.Takes reads writes (takes site) supply e left := by
  obtain ⟨code, hcode, rfl⟩ := editAt_eq_ok h
  simp only [codeFor, bind_eq_ok] at hcode
  obtain ⟨⟨slots, supply₁⟩, hslots, ⟨viewSlot, supply₂⟩, hslot, filling, hfilling, emptying,
    hemptying, h⟩ := hcode
  cases h
  have hall := Supply.allocateAll_of_slotsFor hslots
  have hzip : (slots ++ [viewSlot]).zip (takes site) =
      slots.zip (site.call.signature.parameters.map ValueType.kind) ++ [(viewSlot, .reference)] :=
    List.zip_append (SlotAllocator.length_allocateAll hall)
  refine ⟨slots ++ [viewSlot],
    SlotAllocator.allocateAll_append hall (Supply.allocateAll_of_slot hslot), ?_⟩
  refine made_codeFor (fun v hv => ?_) ?_ hfilling hemptying _
  · have hmem : (v.1, v.2.kind) ∈ (slots ++ [viewSlot]).zip (takes site) :=
      hzip ▸ List.mem_append_left _ (Spill.mem_zip_kinds hv)
    exact ⟨.inl hmem, .inl hmem⟩
  · have hmem : (viewSlot, ValueKind.reference) ∈ (slots ++ [viewSlot]).zip (takes site) :=
      hzip ▸ List.mem_append_right _ (List.mem_singleton_self _)
    exact ⟨.inl hmem, .inl hmem⟩

theorem spends_of_plan (h : (plan cx d point).result = .ok p) : ∃ sites,
    CallSite.locate d point = .ok sites ∧
      p.Spends reads writes (sites.flatMap takes) d.method := by
  obtain ⟨-, sites, hsites, h⟩ := plan_eq_ok h
  exact ⟨sites, hsites, Plan.spends_of_ofSites (fun _ _ _ _ => takes_of_editAt) h⟩

end ModifyArguments

namespace Redirect

/-- Kinds of the operands. -/
def takes (site : Site) : List ValueKind :=
  match exchange site.instruction with
  | .ok x => x.consumed.map ValueType.kind
  | .error _ => []

theorem made_settleResult {i : Instruction} {produced : Option ValueType}
    (h : settleResult cx i produced = .ok code) : code.Made reads writes := by
  unfold settleResult at h
  split at h
  · cases h
    exact made_nil
  · cases h
    exact Instruction.made_drop _
  · cases h
  · exact ValueType.made_coerce h

theorem spends_of_plan (h : (plan cx d point).result = .ok p) : ∃ sites,
    Context.sites d point = .ok sites ∧
      p.Spends reads writes (sites.flatMap takes) d.method := by
  obtain ⟨sites, hsites, h⟩ := plan_eq_ok h
  refine ⟨sites, hsites, Plan.spends_of_ofSites (fun supply site e left he => ?_) h⟩
  obtain ⟨x, code, hx, -, hcode, rfl⟩ := editAt_eq_ok he
  simp only [replacement, bind_eq_ok] at hcode
  obtain ⟨⟨slots, supply'⟩, hslots, arguments, harguments, result, hresult, h⟩ := hcode
  cases h
  rw [takes, hx]
  refine ⟨slots, Supply.allocateAll_of_slotsFor hslots, ?_⟩
  exact made_append.2 ⟨made_append.2 ⟨made_append.2 ⟨made_append.2
    ⟨Spill.made_store fun v hv => .inl (Spill.mem_zip_kinds hv), Handler.made_instantiate⟩,
    Spill.made_loadAs (fun v hv => .inl (Spill.mem_zip_kinds hv)) harguments⟩,
    Handler.made_call⟩, made_settleResult hresult⟩

end Redirect

namespace Inject

variable {cancellable : Bool} {params : List Supplied} {token : ClassName} {slot : UInt16}

/-- A token, if the handler takes one. -/
def takes (params : List Supplied) : List ValueKind :=
  match (tokens params).head? with
  | none => []
  | some _ => [.reference]

/-- A slot of an argument of the method. -/
def Passed (m : Method) (slot : UInt16) (k : ValueKind) : Prop :=
  ∃ index t, m.argumentSlot? index = some (slot, t) ∧ t.kind = k

theorem made_newToken : (newToken cx m token cancellable).Made reads writes := by
  unfold newToken
  cases isReturnable cx token
  · simpa [Instruction.Made] using ⟨.string _, .int _⟩
  · simpa [Instruction.Made] using ⟨.string _, .int _, made_pushBoxedResult _⟩

theorem made_loadSupplied {index : Nat} (htoken : tokens params ≠ [] → reads slot .reference)
    (hpassed : ∀ slot k, Passed m slot k → reads slot k)
    (h : loadSupplied m slot index params = .ok code) : code.Made reads writes := by
  induction params generalizing index code with
  | nil =>
    cases h
    exact made_nil
  | cons param params ih =>
    cases param with
    | token cls =>
      simp only [loadSupplied, bind_eq_ok] at h
      obtain ⟨rest, hrest, h⟩ := h
      cases h
      have hslot : reads slot .reference := htoken (by simp [tokens])
      exact made_cons.2 ⟨hslot, ih (fun _ => hslot) hrest⟩
    | argument type =>
      simp only [loadSupplied] at h
      split at h
      · cases h
      · rename_i given t hgiven
        simp only [bind_eq_ok] at h
        obtain ⟨conversion, hconversion, rest, hrest, h⟩ := h
        cases h
        have hload : reads given t.kind := hpassed _ _ ⟨index, t, hgiven, rfl⟩
        exact made_cons.2 ⟨hload, made_append.2 ⟨ValueType.made_coerce hconversion,
          ih htoken hrest⟩⟩

theorem made_earlyReturn (hslot : reads slot .reference)
    (h : earlyReturn cx m token slot = .ok code) : code.Made reads writes := by
  unfold earlyReturn at h
  split at h
  · cases h
    simp [Instruction.Made]
  · rename_i type _
    split at h
    · obtain ⟨conversion, hconversion, h⟩ := bind_eq_ok.1 h
      cases h
      simpa [Instruction.Made] using ⟨hslot, ValueType.made_coerce hconversion⟩
    · cases h
      exact made_append.2 ⟨type.made_pushZero, by simp [Instruction.Made]⟩

theorem made_cancellation {skip : Label} (hslot : reads slot .reference)
    (h : cancellation cx m token slot skip = .ok code) : code.Made reads writes := by
  obtain ⟨returning, hreturning, h⟩ := bind_eq_ok.1 h
  cases h
  simpa [Instruction.Made] using ⟨hslot, made_earlyReturn hslot hreturning⟩

theorem made_call {arguments : Code} (harguments : arguments.Made reads writes) :
    Code.Made reads writes
      (cx.handler.instantiate ++ arguments ++ [cx.handler.call] ++ cx.handler.dropResult) :=
  made_append.2 ⟨made_append.2 ⟨made_append.2 ⟨Handler.made_instantiate, harguments⟩,
    Handler.made_call⟩, Handler.made_dropResult⟩

theorem made_tokenCall (hslot : reads slot .reference ∧ writes slot .reference)
    {arguments : Code} (harguments : arguments.Made reads writes) :
    Code.Made reads writes (newToken cx m token cancellable ++ [.storeLocal slot .reference] ++
      cx.handler.instantiate ++ arguments ++ [cx.handler.call] ++ cx.handler.dropResult) := by
  have hstore : Code.Made reads writes
      (newToken cx m token cancellable ++ [.storeLocal slot .reference]) :=
    made_append.2 ⟨made_newToken, made_cons.2 ⟨hslot.2, made_nil⟩⟩
  simpa only [List.append_assoc] using made_append.2 ⟨hstore, made_call harguments⟩

theorem takes_of_codeFor (h : codeFor cx m cancellable params supply = .ok (code, left)) :
    ∃ taken, supply.slots.allocateAll (takes params) = .ok (taken, left.slots) ∧
      Plan.Uses (Passed m) (fun _ _ => False) taken (takes params) code := by
  unfold codeFor at h
  unfold takes
  cases htokens : (tokens params).head? with
  | none =>
    rw [htokens] at h
    obtain ⟨arguments, harguments, h⟩ := bind_eq_ok.1 h
    cases h
    have hnone : tokens params = [] := List.head?_eq_none_iff.1 htokens
    exact ⟨[], rfl, made_call (made_loadSupplied (fun hne => absurd hnone hne)
      (fun _ _ hpassed => .inr hpassed) harguments)⟩
  | some token =>
    rw [htokens] at h
    simp only [tokenCall, bind_eq_ok] at h
    obtain ⟨⟨slot, supply'⟩, hslot, arguments, harguments, h⟩ := h
    have hall := Supply.allocateAll_of_slot hslot
    have hmem : (slot, ValueKind.reference) ∈ [slot].zip [.reference] := List.mem_singleton_self _
    have hcall : Plan.Uses (Passed m) (fun _ _ => False) [slot] [.reference]
        (newToken cx m token cancellable ++ [.storeLocal slot .reference] ++
          cx.handler.instantiate ++ arguments ++ [cx.handler.call] ++ cx.handler.dropResult) :=
      made_tokenCall ⟨.inl hmem, .inl hmem⟩
        (made_loadSupplied (fun _ => .inl hmem) (fun _ _ hpassed => .inr hpassed) harguments)
    split at h
    · obtain ⟨leave, hleave, h⟩ := bind_eq_ok.1 h
      cases h
      exact ⟨[slot], hall, made_append.2 ⟨hcall, made_cancellation (.inl hmem) hleave⟩⟩
    · cases h
      exact ⟨[slot], hall, hcall⟩

theorem spends_of_plan (h : (plan cx d point cancellable).result = .ok p) : ∃ sites,
    Context.sites d point = .ok sites ∧ p.Spends (Passed d.method) (fun _ _ => False)
      (sites.flatMap fun _ => takes (cx.handler.parameters.map (supplied cx.settings)))
      d.method := by
  obtain ⟨sites, params, hsites, hparams, h⟩ := sites_of_plan h
  rw [← params_of_classify hparams]
  refine ⟨sites, hsites, Plan.spends_of_ofSites (fun supply site e left he => ?_) h⟩
  obtain ⟨code, hcode, rfl⟩ := editAt_eq_ok he
  cases placement point
  · exact takes_of_codeFor hcode
  · exact takes_of_codeFor hcode

end Inject

/-- The slot that a directive names itself. -/
def Directive.slot? (d : Directive) : Option UInt16 :=
  match d.action with
  | .modifyVariable _ slot => slot
  | _ => none

namespace Weaver

/-- Kinds of the values for which a directive takes slots of a method, site by site. -/
def takes (cx : Context) (d : Draft) : List ValueKind :=
  match cx.directive.action with
  | .inject point _ => ((Context.sites d point).toOption.getD []).flatMap fun _ =>
      Inject.takes (cx.handler.parameters.map (Inject.supplied cx.settings))
  | .redirect point => ((Context.sites d point).toOption.getD []).flatMap Redirect.takes
  | .modifyArgument point index => match cx.handler.filter? with
    | some (parameter, _) =>
      ((CallSite.locate d point).toOption.getD []).flatMap (ModifyArgument.takes index parameter)
    | none => []
  | .modifyArguments point =>
    ((CallSite.locate d point).toOption.getD []).flatMap ModifyArguments.takes
  | .modifyConstant _ | .modifyVariable .. | .overwrite => []

/-- A slot that the directive itself names for a value that the method has there. -/
def Given (cx : Context) (m : Method) (slot : UInt16) (k : ValueKind) : Prop :=
  ModifyVariable.Given m cx.directive.slot? slot k

/-- Whatever the way of weaving, but for new bodies, slots are handed out site by site, and code
works on nothing else but on arguments and the slot that the directive names. -/
theorem spends_of_plan (haction : cx.directive.action ≠ .overwrite)
    (h : (plan cx d).result = .ok p) :
    p.Spends (fun slot k => Inject.Passed d.method slot k ∨ Given cx d.method slot k)
      (Given cx d.method) (takes cx d) d.method := by
  have hnever {slot : UInt16} {k : ValueKind} : False → Given cx d.method slot k := False.elim
  unfold plan at h
  unfold takes
  split at h
  · rename_i haction
    obtain ⟨sites, hsites, hspends⟩ := Inject.spends_of_plan h
    simp only [haction, hsites, Except.toOption, Option.getD_some]
    exact hspends.mono (fun _ _ => .inl) fun _ _ => hnever
  · rename_i haction
    obtain ⟨sites, hsites, hspends⟩ := Redirect.spends_of_plan h
    simp only [haction, hsites, Except.toOption, Option.getD_some]
    exact hspends
  · rename_i haction
    simp only [haction]
    exact ModifyConstant.spends_of_plan h
  · rename_i haction
    obtain ⟨-, parameter, result, -, hfilter, -⟩ := ModifyArgument.plan_eq_ok h
    obtain ⟨sites, hsites, hspends⟩ := ModifyArgument.spends_of_plan hfilter h
    simp only [haction, hfilter, hsites, Except.toOption, Option.getD_some]
    exact hspends
  · rename_i haction
    obtain ⟨sites, hsites, hspends⟩ := ModifyArguments.spends_of_plan h
    simp only [haction, hsites, Except.toOption, Option.getD_some]
    exact hspends
  · rename_i slot haction
    have hgiven : Given cx d.method = ModifyVariable.Given d.method slot := by
      funext n k
      rw [Given, Directive.slot?, haction]
    simp only [haction, hgiven]
    exact (ModifyVariable.spends_of_plan h).mono (fun _ _ => .inr) fun _ _ => id
  · exact absurd ‹_› haction

end Weaver

end

end CodeWeaving
