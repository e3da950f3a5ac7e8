import CodeWeaving.Proofs.Machine.HandlerCalls

/-! Values on top of the stack that pass through a handler, whose instance slides under them. -/
namespace CodeWeaving

namespace Machine.Surroundings

variable {Ref : Type} {S : Surroundings Ref} {h : Handler} {t value parameter result : ValueType}
  {v object : Value Ref} {stack : List (Slot Ref)} {l : Locals Ref} {code : Code}

/-- A reference above a value of a type, whatever its width, ends up below it. -/
theorem exec_tuckUnder (hobject : object.kind = .reference) (hv : v.kind = t.kind) :
    S.exec (Handler.tuckUnder t) ⟨object.slots ++ (v.slots ++ stack), l⟩ =
      pure ⟨v.slots ++ (object.slots ++ stack), l⟩ := by
  have hwidth : t.width = v.kind.width := congrArg ValueKind.width hv.symm
  rw [Handler.tuckUnder, hwidth]
  cases object <;> cases hobject
  cases v <;> rfl

/-- What the handler is called on comes below the value on top. -/
theorem exec_receiverUnder (hv : v.kind = t.kind) :
    S.exec (if h.isStatic then [] else h.instantiate ++ Handler.tuckUnder t)
        ⟨v.slots ++ stack, l⟩ =
      (do
        let object ← S.receiver h
        pure ⟨stacked (object ++ [v]) ++ stack, l⟩) := by
  by_cases hstatic : h.isStatic
  · rw [if_pos hstatic, receiver, if_pos hstatic, pure_bind]
    rfl
  · rw [if_neg hstatic, exec_append, exec_instantiate, bind_assoc]
    refine yields_receiver.bind_congr fun object hkinds => ?_
    rw [if_neg hstatic, List.map_eq_singleton_iff] at hkinds
    obtain ⟨object, rfl, hobject⟩ := hkinds
    rw [pure_bind, stacked_append, List.append_assoc]
    exact exec_tuckUnder hobject hv

/-- The handler is called on the value on top and leaves what it returns in its stead. -/
theorem exec_callOnTop (hparameters : h.parameters = [t]) (hv : v.kind = t.kind) :
    S.exec (h.callOnTop t) ⟨v.slots ++ stack, l⟩ =
      (do
        let r ← S.callHandler h (pure [v])
        pure ⟨pushed r ++ stack, l⟩) := by
  rw [Handler.callOnTop, exec_append, exec_receiverUnder hv, callHandler, bind_assoc, bind_assoc]
  refine yields_receiver.bind_congr fun object hkinds => ?_
  rw [pure_bind, pure_bind, exec_singleton, Handler.call, execute_invoke]
  rw [List.map_append, hkinds, callKinds, show h.reference.method.signature.parameters = [t] from
    hparameters, List.map_singleton, hv]
  cases h.isStatic <;> rfl

/-- What a value of a type comes to through a handler: the value is converted to the handler's
parameter, the handler is called on it once, and what it returns is converted back. -/
def passed (S : Surroundings Ref) (h : Handler) (value parameter result : ValueType)
    (v : Value Ref) : StateT S.World Option (Value Ref) := do
  let given ← S.convert value parameter v
  match ← S.callHandler h (pure [given]) with
  | some returned => S.convert result value returned
  | none => failure

section Filters

variable (hfilter : h.filter? = some (parameter, result))
  (hcode : h.filter value parameter result = .ok code)

include hfilter hcode

/-- Filtering code puts what a value comes to in its stead, on top of any stack. -/
theorem exec_filter (hv : v.kind = value.kind) : S.exec code ⟨v.slots ++ stack, l⟩ =
    (do
      let v' ← S.passed h value parameter result v
      pure ⟨v'.slots ++ stack, l⟩) := by
  obtain ⟨hparameters, hreturns⟩ := Handler.filter?_eq_some hfilter
  obtain ⟨there, hthere, hcode⟩ := bind_eq_ok.1 hcode
  obtain ⟨back, hback, hcode⟩ := bind_eq_ok.1 hcode
  cases hcode
  rw [exec_append, exec_append, exec_convert (ValueType.coerce_eq_ok.1 hthere) hv, passed,
    bind_assoc, bind_assoc, bind_assoc]
  refine (yields_convert (ValueType.coerce_eq_ok.1 hthere) hv).bind_congr fun given hgiven => ?_
  rw [pure_bind, exec_callOnTop hparameters hgiven, bind_assoc, bind_assoc]
  refine yields_callHandler.bind_congr fun r hr => ?_
  rw [hreturns, Option.map_some, Option.map_eq_some_iff] at hr
  obtain ⟨returned, rfl, hkind⟩ := hr
  rw [pure_bind]
  exact exec_convert (ValueType.coerce_eq_ok.1 hback) hkind

theorem yields_passed : Yields (S.passed h value parameter result v) fun v' =>
    v'.kind = value.kind := by
  obtain ⟨hparameters, hreturns⟩ := Handler.filter?_eq_some hfilter
  obtain ⟨there, hthere, hcode⟩ := bind_eq_ok.1 hcode
  obtain ⟨back, hback, hcode⟩ := bind_eq_ok.1 hcode
  refine .bind .trivial fun given _ => .bind yields_callHandler fun r hr => ?_
  rw [hreturns, Option.map_some, Option.map_eq_some_iff] at hr
  obtain ⟨returned, rfl, hkind⟩ := hr
  exact yields_convert (ValueType.coerce_eq_ok.1 hback) hkind

end Filters

/-- Values in slots are loaded side by side. -/
theorem exec_load {s : Spill} {values : List (Value Ref)} (hheld : s.Held l values) :
    S.exec (Spill.load s) ⟨stack, l⟩ = pure ⟨stacked values ++ stack, l⟩ := by
  induction hheld generalizing stack with
  | nil => rfl
  | @cons x v s values hv _ ih =>
    obtain ⟨slot, t⟩ := x
    change S.exec (.loadLocal slot t.kind :: Spill.load s) _ = _
    rw [exec_cons, ← hv.1, execute_loadLocal hv.2, pure_bind, ih, stacked, List.append_assoc]

end Machine.Surroundings

/-- Takes a wide value on an instance of its own and returns an object. -/
def wideningHandler : Handler where
  reference := ⟨.number, .valueOf, ⟨[.base .long], some (.object .object)⟩⟩
  body := ⟨.valueOf, ⟨[.base .long], some (.object .object)⟩, Flags.ofBits _ 0, 1, 3,
    [.pushConstant .null, .ret (some .reference)]⟩

end CodeWeaving
