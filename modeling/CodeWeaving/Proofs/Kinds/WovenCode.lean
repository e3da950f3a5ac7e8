import CodeWeaving.Proofs.Kinds.Flow

/-! What the pieces of woven code do to the kinds on the stack. -/
namespace CodeWeaving

open Code

namespace Code

variable {l : SlotKinds} {a b c : List ValueKind} {code code' : Code} {i : Instruction}

/-- Straight code that turns kinds on top of the stack into others, whatever is below them, and
leaves the locals as they are. The kinds on top come first. -/
def Retypes (l : SlotKinds) (code : Code) (a b : List ValueKind) : Prop :=
  ∀ stack, code.kindsAfter? ⟨a ++ stack, l⟩ = some ⟨b ++ stack, l⟩

namespace Retypes

theorem nil : Retypes l [] a a := fun _ => rfl

theorem append (h : Retypes l code a b) (h' : Retypes l code' b c) :
    Retypes l (code ++ code') a c := by
  intro stack
  rw [kindsAfter?_append, h stack]
  exact h' stack

/-- What is below does not matter. -/
theorem above (h : Retypes l code a b) (c : List ValueKind) :
    Retypes l code (a ++ c) (b ++ c) := by
  intro stack
  rw [List.append_assoc, List.append_assoc]
  exact h (c ++ stack)

theorem single {taken left : List ValueKind} (hkinds : i.kinds? = some (taken, left))
    (ha : taken.reverse = a) (hb : left.reverse = b) (hlocals : i.localsAfter? l = some l) :
    Retypes l [i] a b := by
  subst ha hb
  intro stack
  have hafter : i.kindsAfter? ⟨taken.reverse ++ stack, l⟩ = some ⟨left.reverse ++ stack, l⟩ :=
    Instruction.kindsAfter?_eq_some.2 ⟨Instruction.stackAfter?_of_kinds? hkinds, hlocals⟩
  rw [kindsAfter?_cons, hafter]
  rfl

end Retypes

end Code

variable {l : SlotKinds} {code : Code} {slot : UInt16} {k : ValueKind}

theorem Instruction.retypes_loadLocal (h : l.Holds slot.toNat k) :
    Retypes l [.loadLocal slot k] [] [k] :=
  .single rfl rfl rfl (if_pos h)

theorem Instruction.kindsAfter?_storeLocal {stack : List ValueKind} :
    (storeLocal slot k).kindsAfter? ⟨k :: stack, l⟩ = some ⟨stack, l.store slot.toNat k⟩ := by
  simp [kindsAfter?, stackAfter?, kinds?, takeKinds, localsAfter?]

theorem Instruction.kindsAfter?_ret {kind : Option ValueKind} {stack : List ValueKind} :
    (ret kind).kindsAfter? ⟨kind.toList ++ stack, l⟩ = some ⟨stack, l⟩ := by
  cases kind <;> simp [kindsAfter?, stackAfter?, kinds?, takeKinds, localsAfter?]

theorem Instruction.retypes_drop (k : ValueKind) : Retypes l [drop k] [k] [] := by
  cases k <;> exact fun _ => rfl

namespace BaseType

variable {source target : BaseType}

theorem retypes_box (b : BaseType) : Retypes l [b.box] [b.kind] [.reference] :=
  .single rfl rfl rfl rfl

theorem retypes_unbox (b : BaseType) : Retypes l [b.unbox] [.reference] [b.kind] :=
  .single rfl rfl rfl rfl

theorem retypes_widen? (h : source.widen? target = some code) :
    Retypes l code [source.kind] [target.kind] := by
  unfold widen? at h
  cases source <;> cases target <;> simp [kind] at h <;> subst h <;> exact fun _ => rfl

end BaseType

namespace ValueType

variable {source target : ValueType}

theorem retypes_convert? (h : source.convert? target = some code) :
    Retypes l code [source.kind] [target.kind] := by
  unfold convert? at h
  split at h
  · split at h
    · rename_i heq
      subst heq
      cases h
      exact .nil
    · exact BaseType.retypes_widen? h
  · split at h <;> cases h
    exact BaseType.retypes_box _
  · cases h
  · cases h
    refine .append (b := [.reference]) ?_ (BaseType.retypes_unbox _)
    split
    · exact .nil
    · exact .single rfl rfl rfl rfl
  · cases h
  · split at h <;> cases h
    · exact .nil
    · exact .single rfl rfl rfl rfl

theorem retypes_coerce (h : source.coerce target = .ok code) :
    Retypes l code [source.kind] [target.kind] :=
  retypes_convert? (coerce_eq_ok.1 h)

theorem retypes_pushZero (t : ValueType) : Retypes l [t.pushZero] [] [t.kind] := by
  have hkinds : t.pushZero.kinds? = some ([], [t.kind]) := by
    rw [pushZero, Instruction.kinds?, Constant.kind_zero]
  exact .single hkinds rfl rfl rfl

theorem retypes_pushBoxedZero (t : ValueType) : Retypes l t.pushBoxedZero [] [.reference] := by
  cases t with
  | base b => exact (retypes_pushZero (.base b)).append b.retypes_box
  | ref r => exact .single rfl rfl rfl rfl

end ValueType

theorem retypes_pushBoxedResult (t : Option ValueType) :
    Retypes l (pushBoxedResult t) [] [.reference] := by
  cases t with
  | none => exact .single rfl rfl rfl rfl
  | some t => exact t.retypes_pushBoxedZero

namespace Handler

/-- Kind of the instance that the handler is called on. -/
def receiverKinds (h : Handler) : List ValueKind := if h.isStatic then [] else [.reference]

def argumentKinds (h : Handler) : List ValueKind := h.parameters.map ValueType.kind

def resultKinds (h : Handler) : List ValueKind := (h.returns.map ValueType.kind).toList

theorem retypes_instantiate (h : Handler) : Retypes l h.instantiate [] h.receiverKinds := by
  unfold instantiate receiverKinds
  split
  · exact .nil
  · exact fun _ => rfl

theorem retypes_call (h : Handler) :
    Retypes l [h.call] (h.argumentKinds.reverse ++ h.receiverKinds) h.resultKinds := by
  have hkinds : h.call.kinds? = some (h.receiverKinds ++ h.argumentKinds, h.resultKinds) := by
    unfold call receiverKinds
    cases h.isStatic <;> rfl
  have hreceiver : h.receiverKinds.reverse = h.receiverKinds := by
    unfold receiverKinds
    split <;> rfl
  have hresult : h.resultKinds.reverse = h.resultKinds := by
    unfold resultKinds
    cases h.returns <;> rfl
  refine .single hkinds ?_ hresult rfl
  rw [List.reverse_append, hreceiver]

theorem retypes_dropResult (h : Handler) : Retypes l h.dropResult h.resultKinds [] := by
  unfold dropResult resultKinds
  cases h.returns with
  | none => exact .nil
  | some t => exact Instruction.retypes_drop t.kind

theorem retypes_tuckUnder (top : ValueType) :
    Retypes l (tuckUnder top) [.reference, top.kind] [top.kind, .reference] := by
  unfold tuckUnder ValueType.width
  cases top.kind <;> exact fun _ => rfl

theorem retypes_callOnTop (h : Handler) {top : ValueType} (htop : h.parameters = [top]) :
    Retypes l (h.callOnTop top) [top.kind] h.resultKinds := by
  have hcall := h.retypes_call (l := l)
  have harguments : h.argumentKinds = [top.kind] := by
    rw [argumentKinds, htop]
    rfl
  rw [harguments] at hcall
  unfold callOnTop
  split
  · rename_i hs
    simpa [receiverKinds, hs] using hcall
  · rename_i hs
    have hreceiver : h.receiverKinds = [.reference] := if_neg hs
    have hnew := (h.retypes_instantiate (l := l)).above [top.kind]
    rw [hreceiver] at hcall hnew
    exact (hnew.append (retypes_tuckUnder top)).append hcall

theorem retypes_filter {h : Handler} {value parameter result : ValueType}
    (hf : h.filter? = some (parameter, result))
    (hcode : h.filter value parameter result = .ok code) :
    Retypes l code [value.kind] [value.kind] := by
  obtain ⟨hparameters, hreturns⟩ := filter?_eq_some hf
  have hresult : h.resultKinds = [result.kind] := by
    rw [resultKinds, hreturns]
    rfl
  simp only [filter, bind_eq_ok] at hcode
  obtain ⟨there, hthere, back, hback, hcode⟩ := hcode
  cases hcode
  have hcall := h.retypes_callOnTop (l := l) hparameters
  rw [hresult] at hcall
  exact ((ValueType.retypes_coerce hthere).append hcall).append (ValueType.retypes_coerce hback)

end Handler

end CodeWeaving
