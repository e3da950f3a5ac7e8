import CodeWeaving.Proofs.Machine.HandlerCalls

/-! Injected calls of a handler: the arguments of the method are read back from their slots, and a
new token is made for a handler that takes one. -/
namespace CodeWeaving

open Code Machine

namespace Machine.Locals

variable {Ref : Type} {l l' : Locals Ref} {first high slot i : Nat} {k : ValueKind}
  {values : List (Value Ref)}

/-- The values lie side by side from a slot on. -/
def HoldFrom (l : Locals Ref) : Nat → List (Value Ref) → Prop
  | _, [] => True
  | first, v :: values => l.Holds first v ∧ l.HoldFrom (first + v.kind.width) values

theorem HoldFrom.getElem? (h : l.HoldFrom first values)
    (hslot : (SlotLayout.ofKinds first (values.map Value.kind))[i]? = some (slot, k)) :
    ∃ v, values[i]? = some v ∧ v.kind = k ∧ l.Holds slot v := by
  induction values generalizing first i with
  | nil => simp [SlotLayout.ofKinds] at hslot
  | cons v values ih =>
    cases i with
    | zero =>
      cases hslot
      exact ⟨v, rfl, rfl, h.1⟩
    | succ i => exact ih h.2 hslot

/-- Values that lie below a number are there as long as the locals agree up to it. -/
theorem HoldFrom.of_agree (h : l.HoldFrom first values)
    (hhigh : first + ValueKind.totalWidth (values.map Value.kind) ≤ high)
    (hl : Locals.Agree high l l') : l'.HoldFrom first values := by
  induction values generalizing first with
  | nil => exact trivial
  | cons v values ih =>
    simp only [List.map_cons, ValueKind.totalWidth] at hhigh
    exact ⟨h.1.congr fun k _ hk => hl k (by omega), ih h.2 (by omega)⟩

end Machine.Locals

namespace Method

variable {m : Method} {index : Nat} {slot : UInt16} {t : ValueType}

/-- Slot of the first declared parameter. -/
def firstArgument (m : Method) : Nat := if m.isStatic then 0 else 1

theorem parameterLength_eq (m : Method) : m.parameterLength =
    m.firstArgument + ValueKind.totalWidth (m.signature.parameters.map ValueType.kind) := by
  rw [parameterLength, firstArgument, Signature.parameterLength]
  cases m.isStatic <;> rfl

theorem argumentSlot?_eq_some (h : m.argumentSlot? index = some (slot, t))
    (hparameters : m.parameterLength < 2 ^ 16) : m.signature.parameters[index]? = some t ∧
      ∃ k, (SlotLayout.ofKinds m.firstArgument
        (m.signature.parameters.map ValueType.kind))[index]? = some (slot.toNat, k) := by
  simp only [argumentSlot?, Option.bind_eq_bind, Option.bind_eq_some_iff, Prod.exists] at h
  obtain ⟨type, htype, p, k, hp, h⟩ := h
  cases h
  have hlayout : (SlotLayout.ofKinds m.firstArgument
      (m.signature.parameters.map ValueType.kind))[index]? = some (p, k) := by
    rw [← hp, parameterLayout, parameterKinds, firstArgument]
    cases m.isStatic <;> rfl
  obtain ⟨-, -, hle⟩ := SlotLayout.getElem?_ofKinds hlayout
  have hlt := (Nat.lt_add_of_pos_right k.width_pos).trans_le hle
  rw [← parameterLength_eq] at hlt
  refine ⟨htype, k, ?_⟩
  rw [UInt16.toNat_ofNat_of_lt' (hlt.trans hparameters), hlayout]

/-- The slots of the declared parameters hold values of their kinds. -/
structure ArgumentsHeld {Ref : Type} (m : Method) (l : Locals Ref) (values : List (Value Ref)) :
    Prop where
  kinds : values.map Value.kind = m.signature.parameters.map ValueType.kind
  slots : l.HoldFrom m.firstArgument values

namespace ArgumentsHeld

variable {Ref : Type} {l l' : Locals Ref} {values : List (Value Ref)}

theorem of_agree (h : m.ArgumentsHeld l values) (hl : Locals.Agree m.localsInUse l l') :
    m.ArgumentsHeld l' values := by
  refine ⟨h.kinds, h.slots.of_agree ?_ hl⟩
  rw [h.kinds, ← m.parameterLength_eq]
  exact m.parameterLength_le

/-- The next argument to load is the next value. -/
theorem drop_eq_cons (h : m.ArgumentsHeld l values) (hslot : m.argumentSlot? index = some (slot, t))
    (hparameters : m.parameterLength < 2 ^ 16) :
    ∃ v, (m.signature.parameters.zip values).drop index =
        (t, v) :: (m.signature.parameters.zip values).drop (index + 1) ∧
      v.kind = t.kind ∧ l.Holds slot.toNat v := by
  obtain ⟨htype, k, hlayout⟩ := argumentSlot?_eq_some hslot hparameters
  rw [← h.kinds] at hlayout
  obtain ⟨v, hv, -, hholds⟩ := h.slots.getElem? hlayout
  have hpair : (m.signature.parameters.zip values)[index]? = some (t, v) :=
    List.getElem?_zip_eq_some.2 ⟨htype, hv⟩
  have hkind : (values.map Value.kind)[index]? =
      (m.signature.parameters.map ValueType.kind)[index]? :=
    congrArg (fun kinds => kinds[index]?) h.kinds
  rw [List.getElem?_map, List.getElem?_map, hv, htype] at hkind
  obtain ⟨hlt, hget⟩ := List.getElem?_eq_some_iff.1 hpair
  exact ⟨v, by rw [List.drop_eq_getElem_cons hlt, hget], Option.some.inj hkind, hholds⟩

end ArgumentsHeld

end Method

namespace Inject

variable {Ref : Type} {S : Surroundings Ref} {cx : Context} {m : Method}
  {params : List Supplied} {index : Nat}
  {slot : UInt16} {cls : ClassName} {code arguments : Code} {stack : List (Slot Ref)}
  {l : Locals Ref} {token : Value Ref} {values : List (Value Ref)} {cancellable : Bool}

def Supplied.kind : Supplied → ValueKind
  | .token _ => .reference
  | .argument type => type.kind

theorem kind_supplied (settings : Settings) (t : ValueType) :
    (supplied settings t).kind = t.kind := by
  unfold supplied
  split
  · split <;> rfl
  · rfl

/-- What the handler's parameters are given: the token where one is asked for, elsewhere the next
argument, converted. -/
def given (S : Surroundings Ref) (token : Value Ref) :
    List Supplied → List (ValueType × Value Ref) → StateT S.World Option (List (Value Ref))
  | [], _ | .argument _ :: _, [] => pure []
  | .token _ :: params, arguments => do
    let rest ← given S token params arguments
    pure (token :: rest)
  | .argument type :: params, (t, v) :: arguments => do
    let v ← S.convert t type v
    let rest ← given S token params arguments
    pure (v :: rest)

/-- The token lies in its slot if there is one. -/
def TokenHeld {Ref : Type} (params : List Supplied) (l : Locals Ref) (slot : UInt16)
    (token : Value Ref) : Prop :=
  ∀ cls, .token cls ∈ params → token.kind = .reference ∧ l.Holds slot.toNat token

theorem exec_loadSupplied (h : loadSupplied m slot index params = .ok code)
    (hparameters : m.parameterLength < 2 ^ 16) (hvalues : m.ArgumentsHeld l values)
    (htoken : TokenHeld params l slot token) :
    S.exec code ⟨stack, l⟩ =
      (do
        let operands ← given S token params ((m.signature.parameters.zip values).drop index)
        pure ⟨stacked operands ++ stack, l⟩) := by
  induction params generalizing index code stack with
  | nil =>
    cases h
    rw [given, pure_bind]
    rfl
  | cons param params ih =>
    have htoken' : TokenHeld params l slot token := fun cls hcls =>
      htoken cls (List.mem_cons_of_mem _ hcls)
    cases param with
    | token cls =>
      simp only [loadSupplied, bind_eq_ok] at h
      obtain ⟨rest, hrest, h⟩ := h
      cases h
      obtain ⟨hkind, hholds⟩ := htoken cls List.mem_cons_self
      rw [Surroundings.exec_cons, ← hkind, Surroundings.execute_loadLocal hholds, pure_bind,
        ih hrest htoken', given, bind_assoc]
      simp only [pure_bind, stacked, List.append_assoc]
    | argument type =>
      simp only [loadSupplied] at h
      split at h
      · cases h
      · rename_i argument t hslot
        simp only [bind_eq_ok] at h
        obtain ⟨conversion, hconversion, rest, hrest, h⟩ := h
        cases h
        obtain ⟨v, hdrop, hkind, hholds⟩ := hvalues.drop_eq_cons hslot hparameters
        rw [Surroundings.exec_append, Surroundings.exec_loadAs_single hconversion hkind hholds,
          hdrop, given]
        simp only [bind_assoc, pure_bind, ih hrest htoken', stacked, List.append_assoc]

theorem yields_given (h : loadSupplied m slot index params = .ok code)
    (hparameters : m.parameterLength < 2 ^ 16) (hvalues : m.ArgumentsHeld l values)
    (htoken : TokenHeld params l slot token) :
    Yields (given S token params ((m.signature.parameters.zip values).drop index))
      fun operands => operands.map Value.kind = params.map Supplied.kind := by
  induction params generalizing index code with
  | nil =>
    rw [given]
    exact .pure rfl
  | cons param params ih =>
    have htoken' : TokenHeld params l slot token := fun cls hcls =>
      htoken cls (List.mem_cons_of_mem _ hcls)
    cases param with
    | token cls =>
      simp only [loadSupplied, bind_eq_ok] at h
      obtain ⟨rest, hrest, -⟩ := h
      refine .bind (ih hrest htoken') fun operands hoperands => .pure ?_
      rw [List.map_cons, List.map_cons, hoperands, (htoken cls List.mem_cons_self).1,
        Supplied.kind]
    | argument type =>
      simp only [loadSupplied] at h
      split at h
      · cases h
      · rename_i argument t hslot
        simp only [bind_eq_ok] at h
        obtain ⟨conversion, hconversion, rest, hrest, -⟩ := h
        obtain ⟨v, hdrop, hkind, hholds⟩ := hvalues.drop_eq_cons hslot hparameters
        rw [hdrop]
        have hconvert := Surroundings.yields_convert (S := S)
          (ValueType.coerce_eq_ok.1 hconversion) hkind
        refine hconvert.bind fun v hv => ?_
        refine .bind (ih hrest htoken') fun operands hoperands => .pure ?_
        rw [List.map_cons, List.map_cons, hoperands, hv, Supplied.kind]

/-- The constructor of a token. -/
def tokenInit (cx : Context) (cls : ClassName) : MethodRef :=
  ⟨cls, .init, ⟨[.object .string, .boolean] ++
    (if isReturnable cx cls then [.object .object] else []), none⟩⟩

/-- What the constructor of a token is given besides: a zero result if the token carries one. -/
def initialResult (S : Surroundings Ref) (cx : Context) (m : Method) (cls : ClassName) :
    StateT S.World Option (List (Value Ref)) :=
  if isReturnable cx cls then (fun v => [v]) <$> S.boxedZero m.signature.returns else pure []

/-- A token made for one call: it is told where the call is and whether it may be cancelled. -/
def freshToken (S : Surroundings Ref) (cx : Context) (m : Method) (cls : ClassName)
    (cancellable : Bool) : StateT S.World Option (Value Ref) := do
  let token ← S.answerValue (.allocate cls)
  let name ← S.answerValue (.text (cx.cls.text ++ "." ++ m.identity))
  let result ← initialResult S cx m cls
  let _ ← S.answer (.call .special (tokenInit cx cls)
    ([token, name, .int (if cancellable then 1 else 0)] ++ result))
  pure token

theorem yields_initialResult : Yields (initialResult S cx m cls) fun result =>
    result.map Value.kind = if isReturnable cx cls then [.reference] else [] := by
  unfold initialResult
  split
  · rw [map_eq_pure_bind]
    refine .bind (Surroundings.yields_boxedZero _) fun v hv => .pure ?_
    rw [List.map_singleton, hv]
  · exact .pure rfl

theorem yields_freshToken :
    Yields (freshToken S cx m cls cancellable) fun token => token.kind = .reference :=
  .bind (Surroundings.yields_answerValue rfl) fun _ htoken => .bind .trivial fun _ _ =>
    .bind .trivial fun _ _ => .bind .trivial fun _ _ => .pure htoken

theorem exec_initialResult : S.exec
    (if isReturnable cx cls then pushBoxedResult m.signature.returns else []) ⟨stack, l⟩ =
      (do
        let result ← initialResult S cx m cls
        pure ⟨stacked result ++ stack, l⟩) := by
  unfold initialResult
  split
  · rw [Surroundings.exec_pushBoxedResult, bind_map_left]
    rfl
  · rw [pure_bind]
    rfl

theorem exec_newToken : S.exec (newToken cx m cls cancellable) ⟨stack, l⟩ =
    (do
      let token ← freshToken S cx m cls cancellable
      pure ⟨token.slots ++ stack, l⟩) := by
  have hcode : newToken cx m cls cancellable = [.new cls, .dup] ++
      (.pushConstant (.string (cx.cls.text ++ "." ++ m.identity)) ::
        .pushConstant (.int (if cancellable then 1 else 0)) ::
        ((if isReturnable cx cls then pushBoxedResult m.signature.returns else []) ++
          [.invoke .special (tokenInit cx cls)])) := by
    simp [newToken, tokenInit]
  have hobject (q : Request Ref) (hq : q.Admits = Fits (some .reference)) :
      Yields (S.answerValue q) fun v => v.kind = .reference := Surroundings.yields_answerValue hq
  rw [hcode, Surroundings.exec_append, Surroundings.exec_new, freshToken, bind_assoc, bind_assoc]
  refine (hobject _ rfl).bind_congr fun token htoken => ?_
  rw [pure_bind, Surroundings.exec_cons, bind_assoc,
    Surroundings.execute_of_ask_value (k := .reference) (q := .text _) rfl rfl, bind_assoc]
  refine (hobject _ rfl).bind_congr fun name hname => ?_
  rw [pure_bind, Surroundings.exec_cons, Surroundings.execute_of_go rfl, pure_bind,
    Surroundings.exec_append]
  simp only [Frame.push, exec_initialResult, bind_assoc, pure_bind]
  refine yields_initialResult.bind_congr fun result hresult => ?_
  have hstack : stacked result ++ ((Value.int (if cancellable then 1 else 0)).slots ++
      (name.slots ++ (token.slots ++ (token.slots ++ stack)))) =
      stacked ([token, name, .int (if cancellable then 1 else 0)] ++ result) ++
        (token.slots ++ stack) := by
    simp [stacked]
  rw [Surroundings.exec_singleton, hstack, Surroundings.execute_invoke_nothing _ rfl]
  rw [List.map_append, hresult, List.map_cons, List.map_cons, htoken, hname]
  unfold tokenInit callKinds
  cases isReturnable cx cls <;> rfl

/-- The handler is called once, and what it returns is dropped. -/
theorem exec_handlerCall (hparams : params = cx.handler.parameters.map (supplied cx.settings))
    (h : loadSupplied m slot 0 params = .ok arguments) (hparameters : m.parameterLength < 2 ^ 16)
    (hvalues : m.ArgumentsHeld l values) (htoken : TokenHeld params l slot token) :
    S.exec (cx.handler.instantiate ++ arguments ++ [cx.handler.call] ++ cx.handler.dropResult)
        ⟨stack, l⟩ =
      (do
        let _ ← S.callHandler cx.handler (given S token params (m.signature.parameters.zip values))
        pure ⟨stack, l⟩) := by
  have hkinds : params.map Supplied.kind = cx.handler.parameters.map ValueType.kind := by
    rw [hparams, List.map_map]
    exact List.map_congr_left fun t _ => kind_supplied cx.settings t
  have hgiven := yields_given (S := S) h hparameters hvalues htoken
  rw [List.drop_zero, hkinds] at hgiven
  rw [Surroundings.exec_append, Surroundings.exec_callHandler stack hgiven fun stack =>
    exec_loadSupplied h hparameters hvalues htoken, bind_assoc]
  refine Surroundings.yields_callHandler.bind_congr fun v hv => ?_
  rw [pure_bind, Surroundings.exec_dropResult hv]

end Inject

end CodeWeaving
