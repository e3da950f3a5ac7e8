import CodeWeaving.Proofs.Kinds.Insertions
import CodeWeaving.Proofs.Weaving.HandedSlots

/-! Slots of parameters: one value after the other from the first slot on, without a gap, and as
many slots as a call takes off the stack. -/
namespace CodeWeaving

namespace SlotLayout

variable {first n : Nat} {kinds : List ValueKind}

/-- A value starts after all that are before it. -/
theorem getElem?_ofKinds_eq (index : Nat) : (ofKinds first kinds)[index]? =
    kinds[index]?.map fun k => (first + ValueKind.totalWidth (kinds.take index), k) := by
  induction kinds generalizing first index with
  | nil => rfl
  | cons k kinds ih =>
    cases index with
    | zero => rfl
    | succ index =>
      rw [ofKinds, List.getElem?_cons_succ, ih, List.getElem?_cons_succ, List.take_succ_cons,
        ValueKind.totalWidth, Nat.add_assoc]

theorem map_snd_ofKinds : (ofKinds first kinds).map Prod.snd = kinds := by
  induction kinds generalizing first with
  | nil => rfl
  | cons k kinds ih => rw [ofKinds, List.map_cons, ih]

theorem apart_of_ne {i j : Nat} {x y : Nat × ValueKind} (hx : (ofKinds first kinds)[i]? = some x)
    (hy : (ofKinds first kinds)[j]? = some y) (hne : i ≠ j) : Apart x y := by
  obtain ⟨hi, rfl⟩ := List.getElem?_eq_some_iff.1 hx
  obtain ⟨hj, rfl⟩ := List.getElem?_eq_some_iff.1 hy
  rcases Nat.lt_or_gt_of_ne hne with hlt | hlt
  · exact List.pairwise_iff_getElem.1 pairwise_ofKinds i j hi hj hlt
  · exact (List.pairwise_iff_getElem.1 pairwise_ofKinds j i hj hi hlt).symm

/-- There is no gap between the values. -/
theorem exists_getElem?_ofKinds (hfirst : first ≤ n)
    (hn : n < first + ValueKind.totalWidth kinds) : ∃ (index slot : Nat) (k : ValueKind),
      (ofKinds first kinds)[index]? = some (slot, k) ∧ slot ≤ n ∧ n < slot + k.width := by
  induction kinds generalizing first with
  | nil => exact absurd hn (Nat.not_lt.2 hfirst)
  | cons k kinds ih =>
    by_cases hk : n < first + k.width
    · exact ⟨0, first, k, rfl, hfirst, hk⟩
    · rw [ValueKind.totalWidth, ← Nat.add_assoc] at hn
      obtain ⟨index, slot, k', hget, hin⟩ := ih (Nat.not_lt.1 hk) hn
      exact ⟨index + 1, slot, k', hget, hin⟩

end SlotLayout

namespace Method

/-- What a parameter slot is for. -/
inductive Occupant where
  | receiver
  | parameter (index : Nat)

/-- Slots of the receiver, if there is one, and of the declared parameters. -/
inductive Occupies (m : Method) : Occupant → Nat → Prop
  | receiver : m.isStatic = false → m.Occupies .receiver 0
  | parameter {index n : Nat} {slot : UInt16} {type : ValueType} :
      m.argumentSlot? index = some (slot, type) → slot.toNat ≤ n → n < slot.toNat + type.width →
      m.Occupies (.parameter index) n

variable {m : Method} {index n : Nat} {slot : UInt16} {type : ValueType} {t u : Occupant}

/-- Slots of the receiver and of the parameters ahead of one. -/
def slotsBefore (m : Method) (index : Nat) : Nat :=
  m.firstArgument + ValueKind.totalWidth ((m.signature.parameters.take index).map ValueType.kind)

theorem getElem?_parameterLayout (m : Method) (index : Nat) :
    m.parameterLayout[m.firstArgument + index]? = (SlotLayout.ofKinds m.firstArgument
      (m.signature.parameters.map ValueType.kind))[index]? := by
  rw [parameterLayout, parameterKinds, firstArgument]
  cases m.isStatic
  · exact congrArg _ (Nat.add_comm 1 index)
  · exact congrArg _ (Nat.zero_add index)

theorem getElem?_parameterLayout_eq (m : Method) (index : Nat) :
    m.parameterLayout[m.firstArgument + index]? =
      m.signature.parameters[index]?.map fun type => (m.slotsBefore index, type.kind) := by
  rw [getElem?_parameterLayout, SlotLayout.getElem?_ofKinds_eq, List.getElem?_map, Option.map_map,
    ← List.map_take]
  rfl

theorem argumentSlot?_eq (m : Method) (index : Nat) : m.argumentSlot? index =
    m.signature.parameters[index]?.map fun type => (UInt16.ofNat (m.slotsBefore index), type) := by
  have hplace : (if m.isStatic then index else index + 1) = m.firstArgument + index := by
    rw [firstArgument]
    split <;> omega
  rw [argumentSlot?, hplace, getElem?_parameterLayout_eq]
  cases m.signature.parameters[index]? <;> rfl

section

variable (hparameters : m.parameterLength ≤ 65535)

include hparameters

/-- No slot number is cut if all parameters have their slots. -/
theorem argumentSlot?_eq_some_iff : m.argumentSlot? index = some (slot, type) ↔
    m.signature.parameters[index]? = some type ∧ slot.toNat = m.slotsBefore index := by
  rw [argumentSlot?_eq, Option.map_eq_some_iff]
  refine ⟨?_, fun ⟨htype, hslot⟩ => ⟨type, htype, by rw [← hslot, UInt16.ofNat_toNat]⟩⟩
  rintro ⟨type', htype, heq⟩
  cases heq
  have hlayout := getElem?_parameterLayout_eq m index
  rw [getElem?_parameterLayout, htype, Option.map_some] at hlayout
  obtain ⟨-, -, hle⟩ := SlotLayout.getElem?_ofKinds hlayout
  have hpos : 0 < type.kind.width := type.kind.width_pos
  rw [← parameterLength_eq] at hle
  exact ⟨htype, UInt16.toNat_ofNat_of_lt' (show _ < 65536 by omega)⟩

theorem exists_slot (h : m.signature.parameters[index]? = some type) :
    ∃ slot, m.argumentSlot? index = some (slot, type) ∧ slot.toNat = m.slotsBefore index := by
  have hslot : m.argumentSlot? index = some (UInt16.ofNat (m.slotsBefore index), type) := by
    rw [argumentSlot?_eq, h]
    rfl
  exact ⟨_, hslot, ((argumentSlot?_eq_some_iff hparameters).1 hslot).2⟩

/-- A declared parameter is where the layout has it. -/
theorem getElem?_ofKinds_of_slot (h : m.argumentSlot? index = some (slot, type)) :
    (SlotLayout.ofKinds m.firstArgument (m.signature.parameters.map ValueType.kind))[index]? =
      some (slot.toNat, type.kind) := by
  obtain ⟨htype, hslot⟩ := (argumentSlot?_eq_some_iff hparameters).1 h
  rw [← getElem?_parameterLayout, getElem?_parameterLayout_eq, htype, hslot]
  rfl

theorem lt_of_occupies (h : m.Occupies t n) : n < m.parameterLength := by
  rw [parameterLength_eq]
  cases h with
  | receiver hstatic =>
    rw [firstArgument, hstatic]
    exact Nat.lt_add_right _ Nat.one_pos
  | parameter hslot _ hlt =>
    obtain ⟨-, -, hle⟩ :=
      SlotLayout.getElem?_ofKinds (getElem?_ofKinds_of_slot hparameters hslot)
    exact hlt.trans_le hle

theorem exists_occupies (hn : n < m.parameterLength) : ∃ t, m.Occupies t n := by
  rw [parameterLength_eq] at hn
  by_cases hfirst : n < m.firstArgument
  · have hstatic : m.isStatic = false := by
      cases hstatic : m.isStatic with
      | false => rfl
      | true => simp [firstArgument, hstatic] at hfirst
    rw [firstArgument, hstatic] at hfirst
    obtain rfl : n = 0 := Nat.lt_one_iff.1 hfirst
    exact ⟨_, .receiver hstatic⟩
  · obtain ⟨index, slot, k, hget, hle, hlt⟩ :=
      SlotLayout.exists_getElem?_ofKinds (Nat.not_lt.1 hfirst) hn
    rw [← getElem?_parameterLayout, getElem?_parameterLayout_eq, Option.map_eq_some_iff] at hget
    obtain ⟨type, htype, heq⟩ := hget
    cases heq
    obtain ⟨slot, hslot, htoNat⟩ := exists_slot hparameters htype
    exact ⟨_, .parameter hslot (htoNat ▸ hle) (htoNat ▸ hlt)⟩

theorem eq_of_occupies (ht : m.Occupies t n) (hu : m.Occupies u n) : t = u := by
  -- the receiver's slot lies before those of all declared parameters
  have hreceiver {index : Nat} {slot : UInt16} {type : ValueType} (hstatic : m.isStatic = false)
      (hslot : m.argumentSlot? index = some (slot, type)) : 1 ≤ slot.toNat := by
    have hfirst := (SlotLayout.getElem?_ofKinds
      (getElem?_ofKinds_of_slot hparameters hslot)).2.1
    rwa [firstArgument, hstatic] at hfirst
  cases ht with
  | receiver hstatic =>
    cases hu with
    | receiver => rfl
    | parameter hslot hle _ => exact absurd (hreceiver hstatic hslot) (by omega)
  | @parameter i n slot type hslot hle hlt =>
    cases hu with
    | receiver hstatic => exact absurd (hreceiver hstatic hslot) (by omega)
    | @parameter j _ slot' type' hslot' hle' hlt' =>
      by_contra hne
      have hapart : slot.toNat + type.width ≤ slot'.toNat ∨
          slot'.toNat + type'.width ≤ slot.toNat :=
        SlotLayout.apart_of_ne (getElem?_ofKinds_of_slot hparameters hslot)
          (getElem?_ofKinds_of_slot hparameters hslot') fun h => hne (congrArg _ h)
      omega

end

/-- Every declared parameter has its slots right after those of the receiver and of the parameters
ahead of it, as the layout says, and there is none past the last. No slot is for two of them, those
that are for one are just the slots of the parameter area, and a call with a receiver just if the
method has one takes as many slots off the stack. -/
theorem argument_slots_tile (m : Method) (hparameters : m.parameterLength ≤ 65535) :
    (∀ index type, m.signature.parameters[index]? = some type → ∃ slot,
      m.argumentSlot? index = some (slot, type) ∧ slot.toNat = m.slotsBefore index ∧
        m.parameterLayout[m.firstArgument + index]? = some (slot.toNat, type.kind)) ∧
    (∀ index, m.signature.parameters.length ≤ index →
      m.argumentSlot? index = none ∧ m.parameterLayout[m.firstArgument + index]? = none) ∧
    (m.isStatic = false → m.parameterLayout[0]? = some (0, .reference)) ∧
    (∀ t u n, m.Occupies t n → m.Occupies u n → t = u) ∧
    (∀ n, n < m.parameterLength ↔ ∃ t, m.Occupies t n) ∧
    m.parameterLayout.size = m.parameterLength ∧
    ∀ kind call, call.signature = m.signature → kind.hasReceiver = !m.isStatic →
      (Instruction.invoke kind call).effect.pops = m.parameterLength := by
  refine ⟨fun index type htype => ?_, fun index hindex => ?_, fun hstatic => ?_,
    fun t u n => eq_of_occupies hparameters, fun n => ?_, ?_, fun kind call hcall hkind => ?_⟩
  · obtain ⟨slot, hslot, htoNat⟩ := exists_slot hparameters htype
    exact ⟨slot, hslot, htoNat, by rw [getElem?_parameterLayout_eq, htype, htoNat]; rfl⟩
  · have hnone := List.getElem?_eq_none hindex
    exact ⟨by rw [argumentSlot?_eq, hnone]; rfl, by rw [getElem?_parameterLayout_eq, hnone]; rfl⟩
  · rw [parameterLayout, parameterKinds, hstatic]
    rfl
  · refine ⟨exists_occupies hparameters, ?_⟩
    rintro ⟨_, h⟩
    exact lt_of_occupies hparameters h
  · rw [parameterLayout, SlotLayout.size, SlotLayout.map_snd_ofKinds, totalWidth_parameterKinds]
  · rw [Instruction.effect, hcall, hkind]
    rfl

/-- An instance method with narrow parameters between wide ones. -/
def mixedMethod : Method where
  name := .set
  signature := ⟨[.base .long, .int, .base .double, .object .string], none⟩
  flags := Flags.ofBits _ 0
  maxStack := 0
  maxLocals := 7
  code := [.ret none]

theorem mixedMethod_slots_tile : mixedMethod.parameterLength = 7 ∧
    mixedMethod.argumentSlot? 2 = some (4, .base .double) ∧
    (∃ slot, mixedMethod.argumentSlot? 3 = some (slot, .object .string) ∧ slot.toNat = 6) ∧
    mixedMethod.argumentSlot? 4 = none ∧ ∃ t, mixedMethod.Occupies t 5 := by
  have htile := argument_slots_tile mixedMethod (by decide)
  obtain ⟨slot, hslot, htoNat, -⟩ := htile.1 3 _ rfl
  exact ⟨by decide, by decide, ⟨slot, hslot, htoNat⟩, (htile.2.1 4 (by decide)).1,
    (htile.2.2.2.2.1 5).1 (by decide)⟩

end Method

end CodeWeaving
