import CodeWeaving.Proofs.Kinds.Insertions
import CodeWeaving.Proofs.Machine.Injections

/-! Injected calls: the kinds of what they load, and of what they leave where they may end the
method. -/
namespace CodeWeaving

open Code

namespace Method

variable {m : Method} {l : SlotKinds} {count n : Nat} {k : ValueKind}

theorem argumentSlot?_le {index : Nat} {slot : UInt16} {t : ValueType}
    (h : m.argumentSlot? index = some (slot, t)) (hparameters : m.parameterLength < 2 ^ 16) :
    slot.toNat + t.kind.width ≤ m.parameterLength := by
  obtain ⟨htype, k, hlayout⟩ := argumentSlot?_eq_some h hparameters
  obtain ⟨hkind, -, hle⟩ := SlotLayout.getElem?_ofKinds hlayout
  rw [List.getElem?_map, htype] at hkind
  rw [parameterLength_eq, ← Option.some.inj hkind] at *
  exact hle

/-- Where the first few of the declared parameters came in there are values of their kinds. -/
def KeepsArguments (m : Method) (l : SlotKinds) (count : Nat) : Prop :=
  ∀ index < count, ∀ slot t, m.argumentSlot? index = some (slot, t) → l.Holds slot.toNat t.kind

theorem KeepsArguments.store (h : m.KeepsArguments l count)
    (hparameters : m.parameterLength < 2 ^ 16) (hn : m.parameterLength ≤ n) :
    m.KeepsArguments (l.store n k) count := by
  intro index hindex slot t hslot
  exact (h index hindex slot t hslot).store ((argumentSlot?_le hslot hparameters).trans hn)

end Method

namespace Inject

variable {cx : Context} {m : Method} {params : List Supplied} {token : ClassName} {slot : UInt16}
  {index : Nat} {skip : Label} {cancellable : Bool} {code arguments : Code} {supply left : Supply}
  {l : SlotKinds} {g : KindFrame} {L : Label → Option KindFrame}

/-- How many of the method's arguments the handler is given. -/
def argumentCount (params : List Supplied) : Nat := params.length - (tokens params).length

theorem length_tokens_le (params : List Supplied) : (tokens params).length ≤ params.length :=
  List.length_filterMap_le _ _

theorem retypes_loadSupplied (h : loadSupplied m slot index params = .ok code)
    (htoken : ∀ cls ∈ tokens params, l.Holds slot.toNat .reference)
    (harguments : m.KeepsArguments l (index + argumentCount params)) :
    Retypes l code [] (params.map Supplied.kind).reverse := by
  induction params generalizing index code with
  | nil =>
    cases h
    exact .nil
  | cons param params ih =>
    have hlength := length_tokens_le params
    rw [List.map_cons, List.reverse_cons]
    cases param with
    | token cls =>
      simp only [loadSupplied, bind_eq_ok] at h
      obtain ⟨rest, hrest, h⟩ := h
      cases h
      have htokens : tokens (.token cls :: params) = cls :: tokens params := rfl
      have hcount : argumentCount (.token cls :: params) = argumentCount params := by
        simp only [argumentCount, htokens, List.length_cons]
        omega
      rw [hcount] at harguments
      rw [htokens] at htoken
      have hload := Instruction.retypes_loadLocal (htoken cls List.mem_cons_self)
      have hothers := ih hrest (fun c hc => htoken c (List.mem_cons_of_mem _ hc)) harguments
      exact hload.append (hothers.above [.reference])
    | argument type =>
      simp only [loadSupplied] at h
      split at h
      · cases h
      · rename_i slot' t hslot
        simp only [bind_eq_ok] at h
        obtain ⟨conversion, hconversion, rest, hrest, h⟩ := h
        cases h
        have htokens : tokens (.argument type :: params) = tokens params := rfl
        have hcount : index + argumentCount (.argument type :: params) =
            index + 1 + argumentCount params := by
          simp only [argumentCount, htokens, List.length_cons]
          omega
        rw [hcount] at harguments
        have hload := Instruction.retypes_loadLocal (harguments index (by omega) slot' t hslot)
        have hvalue := hload.append (ValueType.retypes_coerce hconversion)
        have hothers := ih hrest (by rwa [htokens] at htoken) harguments
        exact hvalue.append (hothers.above [type.kind])

theorem retypes_newToken : Retypes l (newToken cx m token cancellable) [] [.reference] := by
  have hnew : Retypes l [.new token, .dup,
      .pushConstant (.string (cx.cls.text ++ "." ++ m.identity)),
      .pushConstant (.int (if cancellable then 1 else 0))] []
      [.int, .reference, .reference, .reference] := fun _ => rfl
  unfold newToken
  cases isReturnable cx token
  · refine (hnew.append .nil).append (b := [.int, .reference, .reference, .reference]) ?_
    exact fun _ => rfl
  · have hresult := (retypes_pushBoxedResult (l := l) m.signature.returns).above
      [.int, .reference, .reference, .reference]
    exact (hnew.append hresult).append fun _ => rfl

theorem kindsAfter?_token :
    kindsAfter? (newToken cx m token cancellable ++ [.storeLocal slot .reference]) g =
      some ⟨g.stack, g.locals.store slot.toNat .reference⟩ := by
  have hnew : (newToken cx m token cancellable).kindsAfter? g =
    some ⟨.reference :: g.stack, g.locals⟩ := retypes_newToken g.stack
  rw [kindsAfter?_append, hnew, Option.bind_some, kindsAfter?_cons,
    Instruction.kindsAfter?_storeLocal]
  rfl

theorem retypes_call (hparams : params = cx.handler.parameters.map (supplied cx.settings))
    (h : loadSupplied m slot index params = .ok arguments)
    (htoken : ∀ cls ∈ tokens params, l.Holds slot.toNat .reference)
    (harguments : m.KeepsArguments l (index + argumentCount params)) :
    Retypes l (cx.handler.instantiate ++ arguments ++ [cx.handler.call] ++ cx.handler.dropResult)
      [] [] := by
  have hkinds : params.map Supplied.kind = cx.handler.argumentKinds := by
    rw [hparams, List.map_map]
    exact List.map_congr_left fun t _ => kind_supplied cx.settings t
  have hload := (retypes_loadSupplied h htoken harguments).above cx.handler.receiverKinds
  rw [hkinds] at hload
  exact ((cx.handler.retypes_instantiate.append hload).append cx.handler.retypes_call).append
    cx.handler.retypes_dropResult

/-- A return from the method has a value of its kind on the stack. -/
theorem retypes_earlyReturn (h : earlyReturn cx m token slot = .ok code)
    (hslot : l.Holds slot.toNat .reference) :
    ∃ (leave : Code) (kind : Option ValueKind), code = leave ++ [.ret kind] ∧
      (∀ i ∈ leave, i.isPlain = true) ∧ Retypes l leave [] kind.toList := by
  unfold earlyReturn at h
  split at h
  · cases h
    exact ⟨[], none, rfl, by simp, .nil⟩
  · rename_i type _
    split at h
    · obtain ⟨conversion, hconversion, h⟩ := bind_eq_ok.1 h
      cases h
      let result : Instruction :=
        .invoke .virtual ⟨token, .getReturnValue, ⟨[], some (.object .object)⟩⟩
      have hvalue : Turns [.loadLocal slot .reference, result] 0 1 := fun _ => rfl
      have hresult : Retypes l [result] [.reference] [.reference] := .single rfl rfl rfl rfl
      have hload : Retypes l [.loadLocal slot .reference, result] [] [.reference] :=
        (Instruction.retypes_loadLocal hslot).append hresult
      exact ⟨_, some type.kind, rfl, (hvalue.append (ValueType.turns_coerce hconversion)).isPlain,
        hload.append (ValueType.retypes_coerce hconversion)⟩
    · cases h
      exact ⟨[type.pushZero], some type.kind, rfl, type.turns_pushZero.isPlain,
        type.retypes_pushZero⟩

/-- Where a call does not end the method, all goes on with what was known before. -/
theorem kindFlows_cancellation (h : cancellation cx m token slot skip = .ok code)
    (hslot : l.Holds slot.toNat .reference) (hg : g.Below ⟨g.stack, l⟩)
    (hskip : L skip = some g) : KindFlows L (some ⟨g.stack, l⟩) code (some g) := by
  obtain ⟨returning, hreturning, h⟩ := bind_eq_ok.1 h
  cases h
  obtain ⟨leave, kind, rfl, hplain, hleave⟩ := retypes_earlyReturn hreturning hslot
  have hcovered : Covered (some ⟨g.stack, l⟩) (some g) := by
    rintro _ ⟨⟩
    exact ⟨g, rfl, hg⟩
  let asked : Instruction := .invoke .virtual ⟨token, .isCancelled, ⟨[], some .boolean⟩⟩
  have hasked : Turns [.loadLocal slot .reference, asked] 0 1 := fun _ => rfl
  have hanswer : Retypes l [asked] [.reference] [.int] := .single rfl rfl rfl rfl
  have hcancelled : Retypes l [.loadLocal slot .reference, asked] [] [.int] :=
    (Instruction.retypes_loadLocal hslot).append hanswer
  have htest := kindFlows_of_straight (L := L) hasked.isPlain (hcancelled g.stack)
  have hvalue := kindFlows_of_straight (L := L) hplain (hleave g.stack)
  have hbranch : FitsKinds L (.branch .ifZero skip) (some ⟨.int :: g.stack, l⟩)
      (some ⟨g.stack, l⟩) := by
    refine ⟨by simp, ?_⟩
    rintro _ ⟨⟩
    refine ⟨⟨g.stack, l⟩, rfl, fun _ => .refl, ?_⟩
    rintro _ ⟨⟩
    rwa [hskip]
  have hret : FitsKinds L (.ret kind) (some ⟨kind.toList ++ g.stack, l⟩) none := by
    refine ⟨by simp, ?_⟩
    rintro _ ⟨⟩
    refine ⟨⟨g.stack, l⟩, Instruction.kindsAfter?_ret, ?_, ?_⟩
    · intro hgo
      cases hgo
    · intro l hl
      cases hl
  have hlabel : FitsKinds L (.label skip) (some g) (some g) := by
    refine ⟨?_, ?_⟩
    · rintro _ ⟨⟩
      exact hskip.symm
    · rintro _ ⟨⟩
      refine ⟨g, rfl, fun _ => .refl, ?_⟩
      intro l hl
      cases hl
  have hend : KindFlows L none [.label skip] (some g) := .cons .none_left hlabel (.nil .refl)
  have hreturn : KindFlows L (some ⟨kind.toList ++ g.stack, l⟩) [.ret kind, .label skip] (some g) :=
    .cons .refl hret hend
  have hrest := KindFlows.cons .refl hbranch (hvalue.append hreturn)
  simpa using htest.append hrest

/-- Injected code leaves the kinds as they were, given the arguments that it loads. -/
theorem kindFlows_codeFor (hparams : params = cx.handler.parameters.map (supplied cx.settings))
    (h : codeFor cx m cancellable params supply = .ok (code, left))
    (hparameters : m.parameterLength < 2 ^ 16) (hsupply : m.parameterLength ≤ supply.slots.next)
    (harguments : m.KeepsArguments g.locals (argumentCount params))
    (hfree : ∀ n, supply.slots.next ≤ n → g.locals n = none)
    (hL : ∀ l ∈ code.placed, L l = some g) : KindFlows L (some g) code (some g) := by
  rw [← Nat.zero_add (argumentCount params)] at harguments
  unfold codeFor at h
  split at h
  · rename_i hnone
    have htokens : tokens params = [] := List.head?_eq_none_iff.1 hnone
    obtain ⟨arguments, hload, h⟩ := bind_eq_ok.1 h
    cases h
    refine kindFlows_of_straight (turns_call hparams hload).isPlain ?_
    exact retypes_call hparams hload (by simp [htokens]) harguments g.stack
  · rename_i token _
    simp only [tokenCall, bind_eq_ok] at h
    obtain ⟨⟨slot, supply'⟩, hslot, arguments, hload, h⟩ := h
    obtain ⟨hslot, -⟩ := Supply.slot_eq_ok hslot
    have hheld : (g.locals.store slot.toNat .reference).Holds slot.toNat .reference :=
      SlotKinds.holds_store
    have hbelow : g.Below ⟨g.stack, g.locals.store slot.toNat .reference⟩ :=
      ⟨rfl, SlotKinds.below_store (hslot ▸ hfree)⟩
    have htoken : Turns (newToken cx m token cancellable ++ [.storeLocal slot .reference]) 0 0 :=
      turns_newToken.append (Instruction.turns_storeLocal slot .reference)
    have hmade := kindFlows_of_straight (L := L) htoken.isPlain
      (kindsAfter?_token (g := g))
    have hcall := kindFlows_of_straight (L := L) (turns_call hparams hload).isPlain
      (retypes_call hparams hload (fun _ _ => hheld)
        (harguments.store hparameters (hslot ▸ hsupply)) g.stack)
    have hcode := hmade.append hcall
    split at h
    · obtain ⟨leave, hleave, h⟩ := bind_eq_ok.1 h
      cases h
      have hleft := kindFlows_cancellation hleave hheld hbelow (hL _ ?_)
      · simpa using hcode.append hleft
      · have hskip := (neutral_cancellation (.nil : Turns [] 0 0) hleave 0).2
        rw [List.nil_append] at hskip
        rw [placed_append, hskip]
        exact List.mem_append_right _ List.mem_cons_self
    · cases h
      have hcovered : Covered (some ⟨g.stack, g.locals.store slot.toNat .reference⟩) (some g) := by
        rintro _ ⟨⟩
        exact ⟨g, rfl, hbelow⟩
      simpa using hcode.to_covered hcovered

theorem fitsKinds_of_planned {point : InjectionPoint} {site : Site} {e : Edit}
    {x : Option KindFrame} (hparams : params = cx.handler.parameters.map (supplied cx.settings))
    (hparameters : m.parameterLength < 2 ^ 16)
    (h : Plan.PlannedAbove (editAt cx m point cancellable params) m.localsInUse site e)
    (hx : ∀ g, x = some g → m.KeepsArguments g.locals (argumentCount params) ∧
      ∀ n, m.localsInUse ≤ n → g.locals n = none) : e.FitsKinds x := by
  obtain ⟨supply, left, he, hlow⟩ := h
  obtain ⟨code, hcode, rfl⟩ := editAt_eq_ok he
  apply Edit.fitsKinds_insert
  intro g hg L hL
  obtain ⟨harguments, hfree⟩ := hx g hg
  exact kindFlows_codeFor hparams hcode hparameters (m.parameterLength_le.trans hlow) harguments
    (fun n hn => hfree n (hlow.trans hn)) hL

end Inject

end CodeWeaving
