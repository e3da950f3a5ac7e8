import CodeWeaving.Proofs.Depth.Straight
import CodeWeaving.Proofs.Weaving.Coercion
import CodeWeaving.Weaving.Context

/-! What the pieces of woven code do to the stack: conversions, moves between stack and slots, and
calls of handlers. -/
namespace CodeWeaving

namespace Code

variable {a b c d k : Nat} {code code' : Code} {i : Instruction}

/-- Straight code that turns `a` slots on top of the stack into `b`, whatever is below them. -/
def Turns (code : Code) (a b : Nat) : Prop := ∀ d, code.depthAfter? (d + a) = some (d + b)

namespace Turns

theorem nil : Turns [] a a := fun _ => rfl

theorem append (h : code.Turns a b) (h' : code'.Turns b c) : (code ++ code').Turns a c := by
  intro d
  rw [depthAfter?_append_eq_some (h d)]
  exact h' d

/-- What is below does not matter. -/
theorem above (h : code.Turns a b) (k : Nat) : code.Turns (k + a) (k + b) := by
  intro d
  rw [← Nat.add_assoc, ← Nat.add_assoc]
  exact h (d + k)

theorem single (hi : i.isPlain = true) (ha : a = k + i.effect.pops) (hb : b = k + i.effect.pushes) :
    Turns [i] a b := by
  intro d
  subst ha hb
  refine depthAfter?_cons_eq_some.2 ⟨hi, by omega, congrArg some ?_⟩
  simp only [Instruction.after]
  omega

theorem isPlain (h : code.Turns a b) : ∀ i ∈ code, i.isPlain = true := isPlain_of_depthAfter? (h 0)

theorem placed (h : code.Turns a b) : code.placed = [] := placed_of_depthAfter? (h 0)

theorem neutral (h : code.Turns a a) (hd : a ≤ d) : code.Neutral d := by
  refine .straight ?_
  have := h (d - a)
  rwa [Nat.sub_add_cancel hd] at this

end Turns

end Code

open Code

namespace BaseType

variable {source target : BaseType} {code : Code}

theorem turns_box (b : BaseType) : Turns [b.box] b.width 1 := by
  refine .single (k := 0) rfl ?_ rfl
  simp [box, Instruction.effect, InvokeKind.hasReceiver, Signature.parameterLength,
    ValueKind.totalWidth, ValueType.kind, width]

theorem turns_unbox (b : BaseType) : Turns [b.unbox] 1 b.width := by
  refine .single (k := 0) rfl rfl ?_
  simp [unbox, Instruction.effect, Signature.returnWidth, ValueType.width, ValueType.kind, width]

theorem turns_widen? (h : source.widen? target = some code) :
    code.Turns source.width target.width := by
  unfold widen? at h
  cases source <;> cases target <;> simp [kind] at h <;> subst h <;> exact fun _ => rfl

end BaseType

namespace ValueType

variable {source target : ValueType} {code : Code}

theorem turns_convert? (h : source.convert? target = some code) :
    code.Turns source.width target.width := by
  unfold convert? at h
  split at h
  · split at h
    · rename_i heq
      subst heq
      cases h
      exact .nil
    · exact BaseType.turns_widen? h
  · split at h <;> cases h
    exact BaseType.turns_box _
  · cases h
  · cases h
    refine .append (b := 1) ?_ (BaseType.turns_unbox _)
    split
    · exact .nil
    · exact fun _ => rfl
  · cases h
  · split at h <;> cases h
    · exact .nil
    · exact fun _ => rfl

theorem turns_coerce (h : source.coerce target = .ok code) :
    code.Turns source.width target.width :=
  turns_convert? (coerce_eq_ok.1 h)

theorem turns_pushZero (t : ValueType) : Turns [t.pushZero] 0 t.width := by
  refine .single (k := 0) rfl rfl ?_
  simp [pushZero, Instruction.effect, Constant.kind_zero, width]

theorem turns_pushBoxedZero (t : ValueType) : Turns t.pushBoxedZero 0 1 := by
  cases t with
  | base b => exact (turns_pushZero (.base b)).append b.turns_box
  | ref r => exact fun _ => rfl

end ValueType

theorem turns_pushBoxedResult (t : Option ValueType) : Turns (pushBoxedResult t) 0 1 := by
  cases t with
  | none => exact fun _ => rfl
  | some t => exact t.turns_pushBoxedZero

namespace Instruction

theorem turns_drop (k : ValueKind) : Turns [drop k] k.width 0 := by
  cases k <;> exact fun _ => rfl

theorem turns_loadLocal (slot : UInt16) (k : ValueKind) : Turns [loadLocal slot k] 0 k.width :=
  .single (k := 0) rfl rfl (Nat.zero_add _).symm

theorem turns_storeLocal (slot : UInt16) (k : ValueKind) : Turns [storeLocal slot k] k.width 0 :=
  .single (k := 0) rfl (Nat.zero_add _).symm rfl

end Instruction

namespace Handler

variable {h : Handler} {code : Code}

/-- Slots of the instance that the handler is called on. -/
def receiverWidth (h : Handler) : Nat := if h.isStatic then 0 else 1

def argumentWidth (h : Handler) : Nat :=
  ValueKind.totalWidth (h.parameters.map ValueType.kind)

def resultWidth (h : Handler) : Nat := (h.returns.map ValueType.width).getD 0

theorem turns_instantiate (h : Handler) : h.instantiate.Turns 0 h.receiverWidth := by
  unfold instantiate receiverWidth
  split
  · exact .nil
  · exact fun _ => rfl

theorem turns_call (h : Handler) :
    Turns [h.call] (h.receiverWidth + h.argumentWidth) h.resultWidth := by
  refine .single (k := 0) rfl ?_ ?_
  · cases hs : h.isStatic <;>
      simp [call, Instruction.effect, receiverWidth, argumentWidth, hs, HandlerRef.method,
        InvokeKind.hasReceiver, Signature.parameterLength, parameters]
  · simp [call, Instruction.effect, HandlerRef.method, Signature.returnWidth, resultWidth, returns]

theorem turns_dropResult (h : Handler) : h.dropResult.Turns h.resultWidth 0 := by
  unfold dropResult resultWidth
  cases h.returns with
  | none => exact .nil
  | some t => exact Instruction.turns_drop t.kind

theorem turns_tuckUnder (top : ValueType) :
    (tuckUnder top).Turns (top.width + 1) (1 + top.width) := by
  have hpos := top.kind.width_pos
  have hle := top.kind.width_le_two
  unfold tuckUnder
  split
  · rename_i htop
    rw [htop]
    exact fun _ => rfl
  · obtain htop : top.width = 1 := by
      simp only [ValueType.width] at *
      omega
    rw [htop]
    exact fun _ => rfl

theorem turns_callOnTop (h : Handler) {top : ValueType} (htop : h.argumentWidth = top.width) :
    (h.callOnTop top).Turns top.width h.resultWidth := by
  have hcall := h.turns_call
  unfold callOnTop
  split
  · rename_i hs
    simpa [receiverWidth, hs, htop] using hcall
  · rename_i hs
    have hnew := h.turns_instantiate.above top.width
    simp only [receiverWidth, hs, htop] at hcall hnew
    exact (hnew.append (turns_tuckUnder top)).append hcall

theorem filter?_eq_some {parameter result : ValueType}
    (hf : h.filter? = some (parameter, result)) :
    h.parameters = [parameter] ∧ h.returns = some result := by
  unfold filter? at hf
  split at hf
  · rename_i hparameters hreturns
    cases hf
    exact ⟨hparameters, hreturns⟩
  · cases hf

theorem turns_filter {value parameter result : ValueType}
    (hf : h.filter? = some (parameter, result))
    (hcode : h.filter value parameter result = .ok code) :
    code.Turns value.width value.width := by
  have hwidths : h.argumentWidth = parameter.width ∧ h.resultWidth = result.width := by
    obtain ⟨hparameters, hreturns⟩ := filter?_eq_some hf
    simp [argumentWidth, resultWidth, hparameters, hreturns, ValueKind.totalWidth,
      ValueType.width]
  unfold filter at hcode
  simp only [bind_eq_ok] at hcode
  obtain ⟨there, hthere, back, hback, hcode⟩ := hcode
  cases hcode
  have hcall := h.turns_callOnTop hwidths.1
  rw [hwidths.2] at hcall
  exact ((ValueType.turns_coerce hthere).append hcall).append (ValueType.turns_coerce hback)

/-- A slot that is loaded, filtered and stored again leaves the stack as it was. -/
theorem turns_filterSlot (slot : UInt16) {value parameter result : ValueType}
    (hf : h.filter? = some (parameter, result))
    (hcode : h.filter value parameter result = .ok code) :
    Turns (.loadLocal slot value.kind :: code ++ [.storeLocal slot value.kind]) 0 0 :=
  ((Instruction.turns_loadLocal slot value.kind).append (turns_filter hf hcode)).append
    (Instruction.turns_storeLocal slot value.kind)

end Handler

theorem ValueKind.totalWidth_eq_sum (kinds : List ValueKind) :
    totalWidth kinds = (kinds.map width).sum := by
  induction kinds with
  | nil => rfl
  | cons k kinds ih => simp [totalWidth, ih]

namespace Spill

variable {s : Spill} {targets : List ValueType} {code : Code}

def width (s : Spill) : Nat := ValueKind.totalWidth (s.map fun v => v.2.kind)

theorem width_zip {slots : List UInt16} {types : List ValueType} (h : slots.length = types.length) :
    width (slots.zip types) = ValueKind.totalWidth (types.map ValueType.kind) := by
  have hkinds : (slots.zip types).map (fun v => v.2.kind) =
      ((slots.zip types).map Prod.snd).map ValueType.kind := by
    rw [List.map_map]
    rfl
  rw [width, hkinds, List.map_snd_zip (by omega)]

theorem width_reverse (s : Spill) : width s.reverse = s.width := by
  simp [width, ValueKind.totalWidth_eq_sum, List.sum_reverse]

theorem turns_load (s : Spill) : s.load.Turns 0 s.width := by
  induction s with
  | nil => exact .nil
  | cons v s ih =>
    obtain ⟨slot, t⟩ := v
    have hrest := ih.above t.kind.width
    exact (Instruction.turns_loadLocal slot t.kind).append hrest

/-- The values go down from where they all are, and nowhere else. -/
theorem depthAfter?_store (s : Spill) (d : Nat) :
    s.store.depthAfter? d = if s.width ≤ d then some (d - s.width) else none := by
  rw [← width_reverse, store]
  generalize s.reverse = s
  induction s generalizing d with
  | nil => simp [width, ValueKind.totalWidth, depthAfter?]
  | cons v s ih =>
    obtain ⟨slot, t⟩ := v
    have hplain : (Instruction.storeLocal slot t.kind).isPlain = true := rfl
    simp only [List.map_cons, depthAfter?, hplain, true_and, Instruction.effect,
      Instruction.after, Nat.add_zero, ih, width, ValueKind.totalWidth]
    by_cases htop : t.kind.width ≤ d
    · rw [if_pos htop, Nat.sub_sub]
      simp only [Nat.le_sub_iff_add_le' htop]
    · rw [if_neg htop, if_neg (by omega)]

theorem turns_store (s : Spill) : s.store.Turns s.width 0 := by
  intro d
  simp [depthAfter?_store]

theorem turns_loadAs (h : s.loadAs targets = .ok code) (hlen : s.length = targets.length) :
    code.Turns 0 (ValueKind.totalWidth (targets.map ValueType.kind)) := by
  induction s generalizing targets code with
  | nil =>
    obtain rfl := List.length_eq_zero_iff.1 hlen.symm
    cases h
    exact .nil
  | cons v s ih =>
    obtain ⟨slot, t⟩ := v
    cases targets with
    | nil => simp at hlen
    | cons target targets =>
      simp only [loadAs, bind_eq_ok] at h
      obtain ⟨conversion, hconversion, rest, hrest, h⟩ := h
      cases h
      have hvalue := (Instruction.turns_loadLocal slot t.kind).append
        (ValueType.turns_coerce hconversion)
      exact hvalue.append ((ih hrest (by simpa using hlen)).above target.width)

end Spill

end CodeWeaving
