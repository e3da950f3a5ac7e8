import CodeWeaving.Proofs.Weaving.Planning

/-! Slots handed out for woven code: above all that the method uses, and none twice. -/
namespace CodeWeaving

/-- The code needs locals for its parameters at least. -/
theorem Code.le_localsNeeded {code : Code} {n : Nat} : n ≤ code.localsNeeded n := by
  unfold localsNeeded
  induction code generalizing n with
  | nil => exact Nat.le_refl _
  | cons i code ih => exact (Nat.le_max_left _ _).trans ih

/-- The code needs the locals of each of its instructions. -/
theorem Code.localsNeeded_of_mem {code : Code} {n : Nat} {i : Instruction} (hi : i ∈ code) :
    i.localsNeeded ≤ code.localsNeeded n := by
  unfold localsNeeded
  induction code generalizing n with
  | nil => cases hi
  | cons j code ih =>
    rcases List.mem_cons.1 hi with rfl | hi
    · exact (Nat.le_max_right _ _).trans le_localsNeeded
    · exact ih hi

theorem Method.parameterLength_le (m : Method) : m.parameterLength ≤ m.localsInUse :=
  Code.le_localsNeeded.trans (Nat.le_max_right _ _)

namespace SlotLayout

variable {first : Nat} {kinds : List ValueKind} {x : Nat × ValueKind}

theorem getElem?_ofKinds {i slot : Nat} {k : ValueKind}
    (h : (ofKinds first kinds)[i]? = some (slot, k)) :
    kinds[i]? = some k ∧ first ≤ slot ∧ slot + k.width ≤ first + ValueKind.totalWidth kinds := by
  induction kinds generalizing first i with
  | nil => cases h
  | cons j kinds ih =>
    simp only [ValueKind.totalWidth]
    cases i with
    | zero =>
      cases h
      exact ⟨rfl, Nat.le_refl _, by omega⟩
    | succ i =>
      obtain ⟨hkind, hle⟩ := ih h
      exact ⟨hkind, by omega⟩

theorem bounds_of_mem_ofKinds (h : x ∈ ofKinds first kinds) :
    first ≤ x.1 ∧ x.1 + x.2.width ≤ first + ValueKind.totalWidth kinds := by
  obtain ⟨i, hi⟩ := List.getElem?_of_mem h
  exact (getElem?_ofKinds hi).2

end SlotLayout

/-- The slots lie between two numbers, each value's above those of the values before it. -/
def Spill.Within (low high : Nat) : Spill → Prop
  | [] => low ≤ high
  | (slot, t) :: s => low ≤ slot.toNat ∧ Within (slot.toNat + t.width) high s

theorem Spill.Within.le {low high : Nat} {s : Spill} (h : Within low high s) : low ≤ high := by
  induction s generalizing low with
  | nil => exact h
  | cons v s ih => exact h.1.trans ((Nat.le_add_right _ _).trans (ih h.2))

theorem Spill.Within.length_le {low high : Nat} {s : Spill} (h : Within low high s) :
    low + s.length ≤ high := by
  induction s generalizing low with
  | nil => exact h
  | cons v s ih =>
    have hpos := v.2.kind.width_pos
    have := ih h.2
    rw [ValueType.width] at this
    rw [List.length_cons]
    have := h.1
    omega

namespace SlotAllocator

variable {a b : SlotAllocator} {k : ValueKind} {slot : UInt16} {slots : List UInt16}

theorem allocate_eq_ok (h : a.allocate k = .ok (slot, b)) :
    slot.toNat = a.next ∧ b.next = a.next + k.width := by
  have hpos := k.width_pos
  unfold allocate at h
  split at h <;> cases h
  have hlt : a.next < 2 ^ 16 := by omega
  exact ⟨UInt16.toNat_ofNat_of_lt' hlt, rfl⟩

/-- Slots are handed out side by side, and none that lies past the last. -/
theorem allocateAll_eq_ok {kinds : List ValueKind} (h : a.allocateAll kinds = .ok (slots, b)) :
    (slots.map UInt16.toNat).zip kinds = SlotLayout.ofKinds a.next kinds ∧
      b.next = a.next + ValueKind.totalWidth kinds ∧ (a.next ≤ 65535 → b.next ≤ 65535) := by
  induction kinds generalizing a slots with
  | nil =>
    cases h
    exact ⟨rfl, rfl, id⟩
  | cons k kinds ih =>
    simp only [allocateAll, bind_eq_ok] at h
    obtain ⟨⟨slot, between⟩, hslot, ⟨rest, left⟩, hrest, h⟩ := h
    cases h
    obtain ⟨hnumber, hnext⟩ := allocate_eq_ok hslot
    obtain ⟨hzip, hlast, hbound⟩ := ih hrest
    have hfits : between.next ≤ 65535 := by
      unfold allocate at hslot
      split at hslot <;> cases hslot
      assumption
    refine ⟨?_, ?_, fun _ => hbound hfits⟩
    · rw [List.map_cons, List.zip_cons_cons, hzip, hnumber, hnext, SlotLayout.ofKinds]
    · rw [hlast, hnext, ValueKind.totalWidth, Nat.add_assoc]

theorem allocateAll_eq_error {kinds : List ValueKind} {e : WeaveError}
    (h : a.allocateAll kinds = .error e) : e = .tooManyLocals := by
  induction kinds generalizing a with
  | nil => cases h
  | cons k kinds ih =>
    rcases bind_eq_error.1 h with h | ⟨⟨slot, a'⟩, -, h⟩
    · unfold allocate at h
      split at h <;> cases h
      rfl
    · rcases bind_eq_error.1 h with h | ⟨_, -, h⟩
      · exact ih h
      · cases h

theorem within_of_allocateAll {types : List ValueType}
    (h : a.allocateAll (types.map ValueType.kind) = .ok (slots, b)) :
    Spill.Within a.next b.next (slots.zip types) := by
  induction types generalizing a slots with
  | nil =>
    cases h
    exact Nat.le_refl _
  | cons t types ih =>
    simp only [List.map_cons, allocateAll, bind_eq_ok] at h
    obtain ⟨⟨slot, c⟩, hslot, ⟨rest, b⟩, hrest, h⟩ := h
    cases h
    obtain ⟨hslot, hnext⟩ := allocate_eq_ok hslot
    refine ⟨hslot.ge, ?_⟩
    rw [hslot, ValueType.width, ← hnext]
    exact ih hrest

end SlotAllocator

namespace Supply

variable {supply left : Supply} {k : ValueKind} {slot : UInt16} {slots : List UInt16}

theorem slot_eq_ok (h : supply.slot k = .ok (slot, left)) :
    slot.toNat = supply.slots.next ∧ left.slots.next = supply.slots.next + k.width := by
  obtain ⟨⟨slot, slots⟩, hslot, h⟩ := map_eq_ok.1 h
  cases h
  exact SlotAllocator.allocate_eq_ok hslot

theorem within_of_slotsFor {types : List ValueType}
    (h : supply.slotsFor (types.map ValueType.kind) = .ok (slots, left)) :
    Spill.Within supply.slots.next left.slots.next (slots.zip types) := by
  obtain ⟨⟨slots, slots'⟩, hall, h⟩ := map_eq_ok.1 h
  cases h
  exact SlotAllocator.within_of_allocateAll hall

end Supply

namespace Plan

variable {α : Type} {edit : Supply → α → Traced (Edit × Supply)} {supply left : Supply}
  {sites : List α} {es : List Edit} {m : Method} {slots : SlotAllocator}

/-- An edit planned with slots above a number to take. -/
def PlannedAbove (edit : Supply → α → Traced (Edit × Supply)) (low : Nat) (site : α) (e : Edit) :
    Prop :=
  ∃ supply left, (edit supply site).result = .ok (e, left) ∧ low ≤ supply.slots.next

theorem length_editSites (h : (editSites edit supply sites).result = .ok (es, left)) :
    es.length = sites.length := by
  induction sites generalizing supply es left with
  | nil =>
    cases h
    rfl
  | cons site sites ih =>
    simp only [editSites, Traced.bind_eq_ok] at h
    obtain ⟨_, -, ⟨rest, left'⟩, hrest, h⟩ := h
    cases h
    rw [List.length_cons, List.length_cons, ih hrest]

theorem exists_site_of_mem {e : Edit} (h : (editSites edit supply sites).result = .ok (es, left))
    (he : e ∈ es) :
    ∃ site ∈ sites, ∃ supply left, (edit supply site).result = .ok (e, left) := by
  induction sites generalizing supply es left with
  | nil =>
    cases h
    cases he
  | cons site sites ih =>
    simp only [editSites, Traced.bind_eq_ok] at h
    obtain ⟨⟨f, between⟩, hf, ⟨rest, left'⟩, hrest, h⟩ := h
    cases h
    rcases List.mem_cons.1 he with rfl | he
    · exact ⟨site, List.mem_cons_self, supply, between, hf⟩
    · obtain ⟨site', hsite', hplanned⟩ := ih hrest he
      exact ⟨site', List.mem_cons_of_mem _ hsite', hplanned⟩

theorem forall_of_ofSites {Q : Edit → Prop}
    (hedit : ∀ supply site, site ∈ sites → ∀ e left,
      (edit supply site).result = .ok (e, left) → Q e)
    (h : (ofSites m sites edit).result = .ok (.edits es slots)) : ∀ e ∈ es, Q e := by
  obtain ⟨⟨es, left⟩, hes, h⟩ := Traced.bind_eq_ok.1 h
  cases h
  intro e he
  obtain ⟨site, hsite, supply, left, hplanned⟩ := exists_site_of_mem hes he
  exact hedit supply site hsite e left hplanned

theorem planned_of_editSites
    (hgrows : ∀ supply site e left, (edit supply site).result = .ok (e, left) →
      supply.slots.next ≤ left.slots.next)
    (h : (editSites edit supply sites).result = .ok (es, left)) :
    (∀ site ∈ sites, ∃ e ∈ es, PlannedAbove edit supply.slots.next site e) ∧
      ∀ e ∈ es, ∃ site ∈ sites, PlannedAbove edit supply.slots.next site e := by
  induction sites generalizing supply es left with
  | nil =>
    cases h
    simp
  | cons site sites ih =>
    simp only [editSites, Traced.bind_eq_ok] at h
    obtain ⟨⟨e, between⟩, he, ⟨rest, left'⟩, hrest, h⟩ := h
    cases h
    obtain ⟨hsites, hedits⟩ := ih hrest
    have hsite : PlannedAbove edit supply.slots.next site e := ⟨supply, between, he, Nat.le_refl _⟩
    have hmono {site : α} {e : Edit} (h : PlannedAbove edit between.slots.next site e) :
        PlannedAbove edit supply.slots.next site e := by
      obtain ⟨supply', left', he', hle⟩ := h
      exact ⟨supply', left', he', (hgrows _ _ _ _ he).trans hle⟩
    refine ⟨List.forall_mem_cons.2 ⟨⟨e, List.mem_cons_self, hsite⟩, fun site' hmem => ?_⟩,
      List.forall_mem_cons.2 ⟨⟨site, List.mem_cons_self, hsite⟩, fun e' hmem => ?_⟩⟩
    · obtain ⟨e', he', hplanned⟩ := hsites site' hmem
      exact ⟨e', List.mem_cons_of_mem _ he', hmono hplanned⟩
    · obtain ⟨site', hsite', hplanned⟩ := hedits e' hmem
      exact ⟨site', List.mem_cons_of_mem _ hsite', hmono hplanned⟩

/-- Each site has an edit, and each edit a site, with slots that the method does not use. -/
theorem planned_of_ofSites
    (hgrows : ∀ supply site e left, (edit supply site).result = .ok (e, left) →
      supply.slots.next ≤ left.slots.next)
    (h : (ofSites m sites edit).result = .ok (.edits es slots)) :
    es.length = sites.length ∧
    (∀ site ∈ sites, ∃ e ∈ es, PlannedAbove edit m.localsInUse site e) ∧
      ∀ e ∈ es, ∃ site ∈ sites, PlannedAbove edit m.localsInUse site e := by
  obtain ⟨⟨es, left⟩, hes, h⟩ := Traced.bind_eq_ok.1 h
  cases h
  exact ⟨length_editSites hes, planned_of_editSites hgrows hes⟩

end Plan

end CodeWeaving
