import CodeWeaving.Proofs.Weaving.Layout
import CodeWeaving.Proofs.Weaving.Turns
import CodeWeaving.Proofs.Weaving.WovenInstructions

/-! Slots handed out for one directive after another: apart from each other, from the parameters and
from what the method had before, and always within its bound on locals. -/
namespace CodeWeaving

open Code

namespace SlotLayout

/-- Two values have no slot in common. -/
def Apart (x y : Nat × ValueKind) : Prop := x.1 + x.2.width ≤ y.1 ∨ y.1 + y.2.width ≤ x.1

theorem pairwise_ofKinds {first : Nat} {kinds : List ValueKind} :
    (ofKinds first kinds).Pairwise Apart := by
  induction kinds generalizing first with
  | nil => exact .nil
  | cons k kinds ih => exact .cons (fun x hx => .inl (bounds_of_mem_ofKinds hx).1) ih

end SlotLayout

theorem Method.apart_parameters {m : Method} {x y : Nat × ValueKind}
    (hx : m.parameterLength ≤ x.1) (hy : y ∈ m.parameterLayout) : SlotLayout.Apart x y := by
  have hlength : m.parameterLength = 0 + ValueKind.totalWidth m.parameterKinds := by
    rw [parameterLength, Signature.parameterLength, parameterKinds]
    cases m.isStatic <;> simp [ValueKind.totalWidth, ValueKind.width]
  exact .inr ((SlotLayout.bounds_of_mem_ofKinds hy).2.trans (hlength ▸ hx))

theorem Instruction.le_localsNeeded {i : Instruction} {x : Nat × ValueKind} (h : x ∈ i.local?) :
    x.1 + x.2.width ≤ i.localsNeeded := by
  cases i with
  | loadLocal slot k | storeLocal slot k =>
    cases h
    exact Nat.le_refl _
  | raw r =>
    rw [local?, Option.mem_def] at h
    rw [localsNeeded]
    split at h
    · rw [if_pos ‹_›]
      obtain ⟨slot, hslot, rfl⟩ := Option.map_eq_some_iff.1 h
      rw [hslot]
      exact Nat.le_refl _
    · cases h
  | _ => cases h

theorem Instruction.localsNeeded_of_local? {i : Instruction} (h : i.local? = none) :
    i.localsNeeded = 0 := by
  cases i with
  | loadLocal slot k | storeLocal slot k => cases h
  | raw r =>
    rw [local?] at h
    rw [localsNeeded]
    split at h
    · rw [if_pos ‹_›, Option.map_eq_none_iff.1 h]
      rfl
    · rw [if_neg ‹_›]
  | _ => rfl

theorem Code.localsNeeded_le {code : Code} {n bound : Nat} :
    code.localsNeeded n ≤ bound ↔ n ≤ bound ∧ ∀ i ∈ code, i.localsNeeded ≤ bound := by
  unfold localsNeeded
  induction code generalizing n with
  | nil => simp
  | cons i code ih => simp [ih, and_assoc]

theorem SlotAllocator.allocate_spec (a : SlotAllocator) (k : ValueKind) :
    (a.next + k.width ≤ 65535 →
      ∃ slot b, a.allocate k = .ok (slot, b) ∧ slot.toNat = a.next ∧ b.next = a.next + k.width) ∧
    (65535 < a.next + k.width → a.allocate k = .error .tooManyLocals) := by
  refine ⟨fun hfits => ?_, fun hover => ?_⟩
  · have hok : a.allocate k = .ok (UInt16.ofNat a.next, ⟨a.next + k.width⟩) := if_pos hfits
    exact ⟨_, _, hok, allocate_eq_ok hok⟩
  · exact if_neg (Nat.not_le.2 hover)

theorem Plan.toNat_maxLocals_of_raise {height : Nat} {slots : SlotAllocator} {d u : Draft}
    (h : Plan.raise height slots d = .ok u) :
    u.method.maxLocals.toNat = max d.method.maxLocals.toNat slots.maxLocals.toNat := by
  unfold Plan.raise at h
  dsimp only at h
  split at h <;> cases h
  exact UInt16.toNat_max _ _

/-- An edit by which no instruction goes that names a local. -/
def Edit.SparesLocals (s : CodeStream) (e : Edit) : Prop :=
  ∀ a code, e = .replace a code → ∃ i, s.Names a i ∧ i.local? = none

theorem Edit.sparesLocals_insert (s : CodeStream) (placement : Placement) (a : Anchor)
    (code : Code) : (Edit.insert placement a code).SparesLocals s := by
  intro b code' h
  cases placement <;> cases h

theorem Redirect.local?_of_exchange {i : Instruction} {x : Exchange} (h : exchange i = .ok x) :
    i.local? = none := by
  unfold exchange at h
  split at h <;> first | rfl | cases h

namespace Weaver

variable {cx : Context} {m : Method} {d u v : Draft} {n : Nat} {settings : Settings}

/-- Only calls and field accesses are replaced, so that what names a local stays. -/
theorem sparesLocals_of_plan {es : List Edit} {slots : SlotAllocator}
    (haction : cx.directive.action ≠ .overwrite)
    (h : (plan cx d).result = .ok (.edits es slots)) : ∀ e ∈ es, e.SparesLocals d.stream := by
  unfold plan at h
  split at h
  · obtain ⟨sites, params, -, -, h⟩ := Inject.sites_of_plan h
    refine Plan.forall_of_ofSites (fun supply site _ e left he => ?_) h
    obtain ⟨code, -, rfl⟩ := Inject.editAt_eq_ok he
    exact Edit.sparesLocals_insert _ _ _ _
  · obtain ⟨sites, hsites, h⟩ := Redirect.plan_eq_ok h
    refine Plan.forall_of_ofSites (fun supply site hsite e left he => ?_) h
    obtain ⟨x, code, hx, -, -, rfl⟩ := Redirect.editAt_eq_ok he
    intro a code' heq
    cases heq
    exact ⟨_, (Context.located_of_sites hsites).names site hsite, Redirect.local?_of_exchange hx⟩
  · obtain ⟨sites, parameter, result, -, -, h⟩ := ModifyConstant.plan_eq_ok h
    refine Plan.forall_of_ofSites (fun supply site _ e left he => ?_) h
    obtain ⟨code, -, rfl, -⟩ := ModifyConstant.editAt_eq_ok he
    exact Edit.sparesLocals_insert _ .after _ _
  · obtain ⟨sites, parameter, result, -, -, h⟩ := ModifyArgument.plan_eq_ok h
    refine Plan.forall_of_ofSites (fun supply site _ e left he => ?_) h
    obtain ⟨i, modified, code, -, -, -, rfl⟩ := ModifyArgument.editAt_eq_ok he
    exact Edit.sparesLocals_insert _ .before _ _
  · obtain ⟨-, sites, -, h⟩ := ModifyArguments.plan_eq_ok h
    refine Plan.forall_of_ofSites (fun supply site _ e left he => ?_) h
    obtain ⟨code, -, rfl⟩ := ModifyArguments.editAt_eq_ok he
    exact Edit.sparesLocals_insert _ .before _ _
  · obtain ⟨parameter, result, sites, -, -, h⟩ := ModifyVariable.plan_eq_ok h
    refine Plan.forall_of_ofSites (fun supply site _ e left he => ?_) h
    obtain ⟨hedit, -⟩ := ModifyVariable.editAt_eq_ok he
    unfold ModifyVariable.editFor at hedit
    split at hedit
    · obtain ⟨code, -, rfl⟩ := map_eq_ok.1 hedit
      exact Edit.sparesLocals_insert _ .before _ _
    · obtain ⟨code, -, rfl⟩ := map_eq_ok.1 hedit
      exact Edit.sparesLocals_insert _ .after _ _
    · obtain ⟨given, code, -, -, -, rfl⟩ := ModifyVariable.editSlot_eq_ok hedit
      exact Edit.sparesLocals_insert _ _ _ _
  · exact absurd ‹_› haction

theorem maxLocals_le_of_coverLocals (h : coverLocals d = .ok u) :
    d.method.maxLocals.toNat ≤ u.method.maxLocals.toNat := by
  unfold coverLocals at h
  split at h <;> cases h
  exact UInt16.toNat_max _ _ ▸ Nat.le_max_left _ _

theorem maxLocals_of_tighten (h : tighten d = .ok u) :
    u.method.maxLocals = d.method.maxLocals := by
  unfold tighten Method.withStackBound at h
  cases hmax : d.method.code.maxStack with
  | error e =>
    rw [hmax] at h
    cases h
  | ok depth =>
    rw [hmax] at h
    dsimp only at h
    split at h <;> cases h
    rfl

theorem bounds_of_check (h : (check settings m).Done d ⟨⟩ u) :
    d.method.maxLocals.toNat ≤ u.method.maxLocals.toNat ∧
      u.method.code.localsNeeded u.method.parameterLength ≤ u.method.maxLocals.toNat := by
  obtain ⟨-, w, htighten, hcover⟩ := done_check h
  have hle := maxLocals_le_of_coverLocals hcover
  obtain ⟨maxLocals, rfl, hneeded⟩ := coverLocals_eq_ok hcover
  rcases htighten with rfl | htighten
  · exact ⟨hle, hneeded⟩
  · exact ⟨maxLocals_of_tighten htighten ▸ hle, hneeded⟩

theorem localsNeeded_le_of_done (haction : cx.directive.action ≠ .overwrite)
    (h : (weaveMethod cx).Done (Draft.ofMethod m) n u) :
    m.code.localsNeeded m.parameterLength ≤
      u.method.code.localsNeeded u.method.parameterLength := by
  obtain ⟨es, slots, hplan, -, hchanged⟩ :=
    exists_changed_of_done (fun p hp => apart_of_plan haction hp) h
  have hheader := sameHeader_of_weaveMethod h
  have hlength : u.method.parameterLength = m.parameterLength :=
    Method.parameterLength_congr hheader.signature hheader.flags
  refine Code.localsNeeded_le.2 ⟨hlength ▸ Code.le_localsNeeded, fun i hi => ?_⟩
  cases hlocal : i.local? with
  | none =>
    rw [Instruction.localsNeeded_of_local? hlocal]
    exact Nat.zero_le _
  | some x =>
    rw [show m.code = (Draft.ofMethod m).method.code from rfl, ← (Draft.ofMethod m).agrees] at hi
    obtain ⟨⟨q, _⟩, hentry, rfl⟩ := List.mem_map.1 hi
    have hnames : (Draft.ofMethod m).stream.Names ((Draft.ofMethod m).stream.anchor q) _ :=
      ⟨rfl, hentry⟩
    have hkept := hchanged.chain.names hnames fun code hmem => by
      obtain ⟨j, hj, hnone⟩ := sparesLocals_of_plan haction hplan _ hmem _ _ rfl
      cases hj.unique hnames
      cases hlocal.symm.trans hnone
    exact Code.localsNeeded_of_mem (u.agrees ▸ List.mem_map_of_mem hkept.2)

/-- What a method had in use fits into sixteen bits, and after weaving its bound covers that and all
slots handed out. -/
theorem slots_of_done (haction : cx.directive.action ≠ .overwrite)
    (h : (weaveMethod cx).Done (Draft.ofMethod m) n u) :
    ∃ taken slots,
      (SlotAllocator.ofMethod m).allocateAll (takes cx (Draft.ofMethod m)) = .ok (taken, slots) ∧
      slots.next ≤ 65535 ∧ slots.next ≤ u.method.maxLocals.toNat := by
  obtain ⟨p, edited, hplan, happly, hcheck⟩ := done_weaveMethod.1 h
  obtain ⟨es, slots, rfl, hapart⟩ := apart_of_plan haction hplan
  obtain ⟨t, ht, hchain⟩ := hapart.exists_chain
  obtain ⟨-, hraise⟩ := (hapart.done_apply ht).1 happly
  obtain ⟨fs, slots', taken, heq, hall, -⟩ := spends_of_plan haction hplan
  cases heq
  obtain ⟨hgrown, hneeded⟩ := bounds_of_check hcheck
  have hused : m.localsInUse ≤ 65535 := by
    have hkept := localsNeeded_le_of_done haction h
    have := m.maxLocals.toNat_lt
    have := u.method.maxLocals.toNat_lt
    rw [Method.localsInUse]
    omega
  obtain ⟨-, -, hbound⟩ := SlotAllocator.allocateAll_eq_ok hall
  have hnext := hbound hused
  have hlocals : slots.maxLocals.toNat = slots.next :=
    UInt16.toNat_ofNat_of_lt' (Nat.lt_succ_of_le hnext)
  have hraised := Plan.toNat_maxLocals_of_raise hraise
  exact ⟨taken, slots, hall, hnext, by omega⟩

/-- Slots handed out while a directive is woven into a method: none if it is not. -/
def handedOut (cx : Context) (m : Method) : SlotLayout :=
  match (weaveMethod cx).result (Draft.ofMethod m),
      (SlotAllocator.ofMethod m).allocateAll (takes cx (Draft.ofMethod m)) with
  | .ok _, .ok (taken, _) => (taken.map UInt16.toNat).zip (takes cx (Draft.ofMethod m))
  | _, _ => []

/-- A method with slots handed out beyond all that it had in use, and with a bound for them. -/
structure Extends (m k : Method) (l : SlotLayout) : Prop where
  maxLocals : m.maxLocals.toNat ≤ k.maxLocals.toNat
  inUse : m.localsInUse ≤ k.localsInUse
  apart : l.Pairwise SlotLayout.Apart
  fresh : ∀ x ∈ l, m.localsInUse ≤ x.1
  fits : ∀ x ∈ l, x.1 + x.2.width ≤ 65535
  covered : ∀ x ∈ l, x.1 + x.2.width ≤ k.maxLocals.toNat

theorem Extends.refl (m : Method) : Extends m m [] where
  maxLocals := Nat.le_refl _
  inUse := Nat.le_refl _
  apart := .nil
  fresh := by simp
  fits := by simp
  covered := by simp

theorem Extends.trans {k j : Method} {l l' : SlotLayout} (h : Extends m k l)
    (h' : Extends k j l') : Extends m j (l ++ l') where
  maxLocals := h.maxLocals.trans h'.maxLocals
  inUse := h.inUse.trans h'.inUse
  apart := by
    refine List.pairwise_append.2 ⟨h.apart, h'.apart, fun x hx y hy => .inl ?_⟩
    calc x.1 + x.2.width ≤ k.maxLocals.toNat := h.covered x hx
      _ ≤ k.localsInUse := Nat.le_max_left _ _
      _ ≤ y.1 := h'.fresh y hy
  fresh := List.forall_mem_append.2 ⟨h.fresh, fun y hy => h.inUse.trans (h'.fresh y hy)⟩
  fits := List.forall_mem_append.2 ⟨h.fits, h'.fits⟩
  covered := List.forall_mem_append.2
    ⟨fun x hx => (h.covered x hx).trans h'.maxLocals, h'.covered⟩

/-- One directive takes slots beyond all that the method has in use, or none. -/
theorem extends_wovenMethod (haction : cx.directive.action ≠ .overwrite) :
    Extends m (wovenMethod cx m) (handedOut cx m) := by
  unfold wovenMethod handedOut
  rcases InPlace.done_or_failed (weaveMethod cx) (Draft.ofMethod m) with ⟨n, hdone⟩ | ⟨e, hfail⟩
  · obtain ⟨taken, slots, hall, hfits, hcovered⟩ := slots_of_done haction hdone
    obtain ⟨hzip, hnext, -⟩ := SlotAllocator.allocateAll_eq_ok hall
    rw [hdone.1, hall]
    dsimp only
    rw [hzip]
    have hstart : (SlotAllocator.ofMethod m).next = m.localsInUse := rfl
    have hlocals : m.maxLocals.toNat ≤ m.localsInUse := Nat.le_max_left _ _
    have huse : ((weaveMethod cx).left (Draft.ofMethod m)).method.maxLocals.toNat ≤
        ((weaveMethod cx).left (Draft.ofMethod m)).method.localsInUse := Nat.le_max_left _ _
    have hbounds : ∀ x ∈ SlotLayout.ofKinds m.localsInUse (takes cx (Draft.ofMethod m)),
        m.localsInUse ≤ x.1 ∧ x.1 + x.2.width ≤ slots.next :=
      fun x hx => hnext ▸ SlotLayout.bounds_of_mem_ofKinds hx
    rw [hstart] at hnext ⊢
    exact {
      maxLocals := by omega
      inUse := by omega
      apart := SlotLayout.pairwise_ofKinds
      fresh := fun x hx => (hbounds x hx).1
      fits := fun x hx => (hbounds x hx).2.trans hfits
      covered := fun x hx => (hbounds x hx).2.trans hcovered }
  · rw [hfail.1]
    exact .refl m

/-- A method after directives are woven into it one by one. -/
def wovenBy (cxs : List Context) (m : Method) : Method :=
  cxs.foldl (fun m cx => wovenMethod cx m) m

/-- Slots handed out on the way. -/
def handedOutBy : List Context → Method → SlotLayout
  | [], _ => []
  | cx :: cxs, m => handedOut cx m ++ handedOutBy cxs (wovenMethod cx m)

theorem extends_wovenBy {cxs : List Context}
    (hmodes : ∀ cx ∈ cxs, cx.directive.action ≠ .overwrite) :
    Extends m (wovenBy cxs m) (handedOutBy cxs m) := by
  induction cxs generalizing m with
  | nil => exact .refl m
  | cons cx cxs ih =>
    obtain ⟨haction, hmodes⟩ := List.forall_mem_cons.1 hmodes
    exact (extends_wovenMethod haction).trans (ih hmodes)

theorem wovenMethod_of_error {e : WeaveError} (haction : cx.directive.action ≠ .overwrite)
    (h : (SlotAllocator.ofMethod m).allocateAll (takes cx (Draft.ofMethod m)) = .error e) :
    wovenMethod cx m = m ∧ handedOut cx m = [] := by
  unfold wovenMethod handedOut
  rcases InPlace.done_or_failed (weaveMethod cx) (Draft.ofMethod m) with ⟨n, hdone⟩ | ⟨e, hfail⟩
  · obtain ⟨taken, slots, hall, -⟩ := slots_of_done haction hdone
    cases h.symm.trans hall
  · rw [hfail.1]
    exact ⟨rfl, rfl⟩

section Classes

variable {handlers : HandlerProvider} {c : ClassDefinition} {directive : Directive} {place : Nat}

theorem exists_rework (settings : Settings) (handlers : HandlerProvider) (directive : Directive)
    (name : ClassName) (ms : List Method) (m : Method) :
    rework settings handlers directive name ms m = m ∨ ∃ cx : Context, cx.directive = directive ∧
      rework settings handlers directive name ms m = wovenMethod cx m := by
  unfold rework
  split
  · split
    · exact .inr ⟨_, rfl, rfl⟩
    · exact .inl rfl
  · exact .inl rfl

/-- What a class's weaving makes of a method, some of the directives make of it one by one. -/
theorem exists_wovenBy {l : List (Directive × Nat)} (h : c.methods[place]? = some m) :
    ∃ cxs, (cxs.map Context.directive).Sublist (l.map Prod.fst) ∧
      (weaveInOrder settings handlers c l).cls.methods[place]? = some (wovenBy cxs m) := by
  induction l generalizing c m with
  | nil => exact ⟨[], .slnil, h⟩
  | cons x l ih =>
    obtain ⟨directive, index⟩ := x
    rw [cls_weaveInOrder_cons, List.map_cons]
    have hmethod : (weaveOne settings handlers c index directive).1.methods[place]? =
        some (rework settings handlers directive c.name (own directive c) m) := by
      rw [weaveOne_eq.1, List.getElem?_map, h]
      rfl
    obtain ⟨cxs, hcxs, hwoven⟩ := ih hmethod
    rcases exists_rework settings handlers directive c.name (own directive c) m with
      hsame | ⟨cx, rfl, hrework⟩
    · exact ⟨cxs, hcxs.cons _, hsame ▸ hwoven⟩
    · rw [hrework] at hwoven
      exact ⟨cx :: cxs, hcxs.cons_cons _, hwoven⟩

end Classes

/-- Slots are fresh whatever is woven after what, but for new bodies: all that are handed out are
apart from each other, from the parameters and from the locals of the method as it was at first,
below the last slot, and from then on within the method's bound. That is the case in a class too,
where each method has some of the directives woven into it, one by one. Slots are handed out by a
plan as its sites take them, and its code works on no others but those of arguments and the one that
the directive names; what would not fit is not handed out, and the method stays as it is. -/
theorem handed_slots_fresh (m : Method) (cxs : List Context)
    (hmodes : ∀ cx ∈ cxs, cx.directive.action ≠ .overwrite) :
    (handedOutBy cxs m).Pairwise SlotLayout.Apart ∧
    (∀ x ∈ handedOutBy cxs m, x.1 + x.2.width ≤ 65535 ∧
      (∀ y ∈ m.parameterLayout, SlotLayout.Apart x y) ∧
      ∀ i ∈ m.code, ∀ y ∈ i.local?, SlotLayout.Apart x y) ∧
    (∀ k, ∀ x ∈ handedOutBy (cxs.take k) m,
      x.1 + x.2.width ≤ (wovenBy (cxs.take k) m).maxLocals.toNat) ∧
    (∀ settings handlers (c : ClassDefinition) ds (place : Nat), c.methods[place]? = some m →
      ∃ cxs' : List Context,
        (cxs'.map Context.directive).Sublist ((weavingOrder ds).map Prod.fst) ∧
        (weave settings handlers c ds).cls.methods[place]? = some (wovenBy cxs' m)) ∧
    (∀ cx ∈ cxs, ∀ found : Method,
      (∀ p, (plan cx (Draft.ofMethod found)).result = .ok p →
        p.Spends (fun slot k => Inject.Passed found slot k ∨ Given cx found slot k)
          (Given cx found) (takes cx (Draft.ofMethod found)) found) ∧
      ∀ e, (SlotAllocator.ofMethod found).allocateAll (takes cx (Draft.ofMethod found)) = .error e →
        e = .tooManyLocals ∧ wovenMethod cx found = found ∧ handedOut cx found = []) ∧
    ∀ (a : SlotAllocator) (k : ValueKind),
      (a.next + k.width ≤ 65535 → ∃ slot b, a.allocate k = .ok (slot, b) ∧
        slot.toNat = a.next ∧ b.next = a.next + k.width) ∧
      (65535 < a.next + k.width → a.allocate k = .error .tooManyLocals) := by
  have hextends : Extends m (wovenBy cxs m) (handedOutBy cxs m) := extends_wovenBy hmodes
  refine ⟨hextends.apart, fun x hx => ⟨hextends.fits x hx, fun y hy => ?_, fun i hi y hy => ?_⟩,
    fun k x hx => ?_, fun settings handlers c ds place hplace => ?_, fun cx hcx found => ?_,
    SlotAllocator.allocate_spec⟩
  · exact Method.apart_parameters (m.parameterLength_le.trans (hextends.fresh x hx)) hy
  · refine .inr ?_
    calc y.1 + y.2.width ≤ i.localsNeeded := Instruction.le_localsNeeded hy
      _ ≤ m.code.localsNeeded m.parameterLength := Code.localsNeeded_of_mem hi
      _ ≤ m.localsInUse := Nat.le_max_right _ _
      _ ≤ x.1 := hextends.fresh x hx
  · have htake : ∀ cx ∈ cxs.take k, cx.directive.action ≠ .overwrite :=
      fun cx hcx => hmodes cx (List.mem_of_mem_take hcx)
    exact (extends_wovenBy htake).covered x hx
  · cases hwoven : c.woven with
    | true => exact ⟨[], List.nil_sublist _, by simpa [weave, hwoven, wovenBy] using hplace⟩
    | false =>
      rw [(weave_of_unwoven hwoven).1]
      exact exists_wovenBy hplace
  · exact ⟨fun p hp => spends_of_plan (hmodes cx hcx) hp, fun e he =>
      ⟨SlotAllocator.allocateAll_eq_error he, wovenMethod_of_error (hmodes cx hcx) he⟩⟩

/-- Calls a method twice with a narrow argument and a wide one, and states no bound for locals. -/
def unboundedMethod : Method where
  name := .set
  signature := ⟨[.int], none⟩
  flags := Flags.ofBits _ staticFlag
  maxStack := 3
  maxLocals := 0
  code := [.pushConstant (.long 5), .storeLocal 1 .long,
    .loadLocal 0 .int, .loadLocal 1 .long,
    .invoke .static ⟨.number, .get, ⟨[.int, .base .long], none⟩⟩,
    .loadLocal 0 .int, .loadLocal 1 .long,
    .invoke .static ⟨.number, .get, ⟨[.int, .base .long], none⟩⟩, .ret none]

def firstCallContext : Context where
  settings := .standard
  cls := .object
  directive := ⟨.object, ⟨.set, none⟩, ⟨.number, .valueOf, ⟨[.int, .base .long], none⟩⟩, 0, false,
    .redirect ⟨.calls (.permissive "get") 0, 0, .before⟩⟩
  handler := ⟨⟨.number, .valueOf, ⟨[.int, .base .long], none⟩⟩,
    ⟨.valueOf, ⟨[.int, .base .long], none⟩, Flags.ofBits _ staticFlag, 0, 3, [.ret none]⟩⟩

/-- Slots for the arguments of one call and then of the other, above the method's own local. -/
theorem unboundedMethod_slots_fresh :
    handedOutBy [firstCallContext, firstCallContext] unboundedMethod =
        [(3, .int), (4, .long), (6, .int), (7, .long)] ∧
      (handedOutBy [firstCallContext, firstCallContext] unboundedMethod).Pairwise
        SlotLayout.Apart :=
  ⟨by decide +kernel, (handed_slots_fresh _ _ (by simp [firstCallContext])).1⟩

end Weaver

end CodeWeaving
