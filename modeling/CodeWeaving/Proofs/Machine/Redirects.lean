import CodeWeaving.Proofs.Machine.HandlerCalls
import CodeWeaving.Proofs.Weaving.Layout

/-! Redirected calls and field accesses: the handler's result comes in the place of the site's, and
nothing else happens there. -/
namespace CodeWeaving

open Code Machine

namespace Machine.Request

variable {Ref : Type}

/-- The values that a call or an access is about, a receiver first. -/
def operands : Request Ref → List (Value Ref)
  | .call _ _ operands | .access _ _ operands => operands
  | .cast _ v => [v]
  | .allocate _ | .text _ | .raw _ _ => []

/-- The types of the operands of a call or an access; a receiver is of the class that it names. -/
def operandTypes : Request Ref → List ValueType
  | .call kind m _ =>
    (if kind.hasReceiver then [.object m.owner] else []) ++ m.signature.parameters
  | .access .getField f _ => [.object f.owner]
  | .access .putField f _ => [.object f.owner, f.type]
  | .access .getStatic _ _ => []
  | .access .putStatic f _ => [f.type]
  | .allocate _ | .cast _ _ | .text _ | .raw _ _ => []

/-- The type of what a call returns or of the field that is read. -/
def answerType? : Request Ref → Option ValueType
  | .call _ m _ => m.signature.returns
  | .access .getField f _ | .access .getStatic f _ => some f.type
  | .access .putField _ _ | .access .putStatic _ _ => none
  | .allocate _ | .cast _ _ | .text _ | .raw _ _ => none

/-- A call of anything but a constructor, or a field access. -/
def IsSite : Request Ref → Prop
  | .call _ m _ => m.name ≠ .init
  | .access _ _ _ => True
  | .allocate _ | .cast _ _ | .text _ | .raw _ _ => False

/-- The answer to a call or an access is a value of its type, or nothing. -/
theorem IsSite.admits {q : Request Ref} (h : q.IsSite) :
    q.Admits = Fits (q.answerType?.map ValueType.kind) := by
  cases q with
  | call => rfl
  | access access => cases access <;> rfl
  | _ => exact h.elim

end Machine.Request

namespace Redirect

variable {Ref : Type} {S : Surroundings Ref} {cx : Context} {m : Method} {i : Instruction}
  {x : Exchange} {code : Code} {supply left : Supply} {f g : Frame Ref} {q : Request Ref}
  {stack : List (Slot Ref)} {l : Locals Ref} {returned produced : Option ValueType}
  {v : Option (Value Ref)}

/-- What is exchanged is what the instruction asks about and has for an answer. The operands are on
top of the stack, each of the kind of its type. -/
theorem asked_of_exchange (hx : exchange i = .ok x) (h : begin i f = some (.ask q g)) :
    q.IsSite ∧ q.operandTypes = x.consumed ∧ q.answerType? = x.produced ∧
      q.operands.map Value.kind = q.operandTypes.map ValueType.kind ∧
      f = ⟨stacked q.operands ++ g.stack, g.locals⟩ := by
  obtain ⟨stack, l⟩ := f
  cases i with
  | invoke kind m =>
    obtain ⟨operands, rest, hkinds, rfl, h⟩ := Surroundings.begin_invoke_eq_some.1 h
    cases h
    simp only [exchange] at hx
    split at hx <;> cases hx
    refine ⟨‹_›, rfl, rfl, ?_, rfl⟩
    rw [Request.operands, Request.operandTypes, hkinds, callKinds, List.map_append]
    cases kind <;> rfl
  | field access field =>
    obtain ⟨operands, rest, hkinds, rfl, h⟩ := Surroundings.begin_field_eq_some.1 h
    cases h
    cases access <;> cases hx <;> exact ⟨trivial, rfl, rfl, hkinds, rfl⟩
  | _ => cases hx

/-- With its operands on top of any stack, an instruction with an exchange asks. -/
theorem exists_ask (hx : exchange i = .ok x) (g : Frame Ref) :
    ∃ q f, begin i f = some (.ask q g) := by
  cases i with
  | invoke kind m =>
    obtain ⟨operands, hkinds⟩ := Value.exists_of_kinds (callKinds kind m)
    exact ⟨_, ⟨_, g.locals⟩, Surroundings.begin_invoke_eq_some.2 ⟨operands, _, hkinds, rfl, rfl⟩⟩
  | field access field =>
    obtain ⟨operands, hkinds⟩ := Value.exists_of_kinds (accessKinds access field)
    exact ⟨_, ⟨_, g.locals⟩, Surroundings.begin_field_eq_some.2 ⟨operands, _, hkinds, rfl, rfl⟩⟩
  | _ => cases hx

/-- What the handler returns as what the site leaves. -/
def settle (S : Surroundings Ref) (returned produced : Option ValueType) (v : Option (Value Ref)) :
    StateT S.World Option (Option (Value Ref)) :=
  match returned, produced, v with
  | some source, some target, some v => some <$> S.convert source target v
  | _, _, _ => pure none

theorem settle_nothing : settle S returned none v = pure none := by cases returned <;> rfl

theorem exec_settleResult (h : settleResult cx i produced = .ok code)
    (hv : v.map Value.kind = cx.handler.returns.map ValueType.kind) :
    S.exec code ⟨pushed v ++ stack, l⟩ =
      (do
        let v ← settle S cx.handler.returns produced v
        pure ⟨pushed v ++ stack, l⟩) := by
  unfold settleResult at h
  split at h
  · rename_i hreturns
    cases h
    rw [hreturns, Option.map_none, Option.map_eq_none_iff] at hv
    rw [hreturns, hv]
    rfl
  · rename_i hreturns
    cases h
    rw [hreturns, Option.map_some, Option.map_eq_some_iff] at hv
    obtain ⟨v, rfl, hv⟩ := hv
    rw [settle_nothing, pure_bind, Surroundings.exec_singleton, ← hv]
    exact Surroundings.execute_drop
  · cases h
  · rename_i hreturns
    rw [hreturns, Option.map_some, Option.map_eq_some_iff] at hv
    obtain ⟨v, rfl, hv⟩ := hv
    rw [hreturns, settle, bind_map_left]
    exact Surroundings.exec_convert (ValueType.coerce_eq_ok.1 h) hv

theorem yields_settle (h : settleResult cx i produced = .ok code)
    (hv : v.map Value.kind = cx.handler.returns.map ValueType.kind) :
    Yields (settle S cx.handler.returns produced v) fun v' =>
      v'.map Value.kind = produced.map ValueType.kind := by
  unfold settleResult at h
  split at h
  · exact settle_nothing ▸ .pure rfl
  · exact settle_nothing ▸ .pure rfl
  · cases h
  · rename_i returned type hreturns
    rw [hreturns, Option.map_some, Option.map_eq_some_iff] at hv
    obtain ⟨v, rfl, hv⟩ := hv
    rw [hreturns, settle, map_eq_pure_bind]
    refine (Surroundings.yields_convert (ValueType.coerce_eq_ok.1 h) hv).bind fun v' hv' => .pure ?_
    rw [Option.map_some, Option.map_some, hv']

/-- What becomes of a redirected site: the handler is called on its operands, each converted to the
handler's parameter, and what the handler returns is converted to the type of the site's answer. -/
def redirected (S : Surroundings Ref) (h : Handler) (q : Request Ref) :
    StateT S.World Option (Option (Value Ref)) := do
  let v ← S.callHandler h (S.convertAll (q.operandTypes.zip q.operands) h.parameters)
  settle S h.returns q.answerType? v

/-- Code between two places takes the operands of a request and leaves what comes of calling the
handler on them where the answer would be. Of the locals only those from a number on may change. -/
structure Replaces (S : Surroundings Ref) (h : Handler) (code : Code) (start stop low : Nat)
    (q : Request Ref) (f g : Frame Ref) : Prop where
  site : q.IsSite
  frame : f = ⟨stacked q.operands ++ g.stack, g.locals⟩
  kinds : q.operands.map Value.kind = q.operandTypes.map ValueType.kind
  count : q.operandTypes.length = h.parameters.length
  /-- A handler without a result only replaces what has no answer. -/
  result : h.returns = none → q.Admits []
  admits : Yields (redirected S h q) fun v => q.Admits (pushed v)
  comesTo : ∃ l, Locals.Agree low g.locals l ∧
    S.ComesTo code start stop start f (redirected S h q)
      fun v w => .at stop w ⟨pushed v ++ g.stack, l⟩

theorem exec_replacement (stack : List (Slot Ref)) (l : Locals Ref)
    (h : replacement cx i x supply = .ok (code, left))
    (htypes : q.operandTypes = x.consumed) (hanswer : q.answerType? = x.produced)
    (hcount : q.operandTypes.length = cx.handler.parameters.length)
    (hkinds : q.operands.map Value.kind = q.operandTypes.map ValueType.kind) :
    (Yields (redirected S cx.handler q) fun v =>
      v.map Value.kind = q.answerType?.map ValueType.kind) ∧
    ∃ l', Locals.Agree supply.slots.next l l' ∧
      S.exec code ⟨stacked q.operands ++ stack, l⟩ =
        (do
          let v ← redirected S cx.handler q
          pure ⟨pushed v ++ stack, l'⟩) := by
  simp only [replacement, bind_eq_ok, ← htypes, ← hanswer] at h
  obtain ⟨⟨slots, left⟩, hslots, arguments, harguments, result, hresult, h⟩ := h
  cases h
  refine ⟨Surroundings.yields_callHandler.bind fun v hv => yields_settle hresult hv, ?_⟩
  have hlen : slots.length = q.operandTypes.length := by
    rw [Supply.length_slotsFor hslots, List.length_map]
  have hwithin := Supply.within_of_slotsFor hslots
  generalize hs : slots.zip q.operandTypes = s at *
  have hsnd : s.map Prod.snd = q.operandTypes := by rw [← hs, List.map_snd_zip hlen.ge]
  have hkinds' : q.operands.map Value.kind = s.map fun v => v.2.kind := by
    rw [hkinds, ← hsnd, List.map_map]
    rfl
  have hcount' : s.length = cx.handler.parameters.length := by
    rw [← hcount, ← hsnd, List.length_map]
  have hheld := Spill.held_filled (l := l) hwithin hkinds'
  have hcall := Surroundings.exec_callHandler (S := S) stack
    (Surroundings.yields_convertAll harguments hcount' hheld)
    fun stack => Surroundings.exec_loadAs harguments hcount' hheld
  refine ⟨Spill.filled l s q.operands, Spill.agree_filled hwithin, ?_⟩
  rw [List.append_assoc (Spill.store s), List.append_assoc (Spill.store s),
    Surroundings.exec_append, Surroundings.exec_append, Surroundings.exec_store hkinds', pure_bind,
    hcall, redirected, hsnd, bind_assoc, bind_assoc]
  refine Surroundings.yields_callHandler.bind_congr fun v hv => ?_
  rw [pure_bind, exec_settleResult hresult hv]

theorem next_le_of_editAt {site : Site} {e : Edit}
    (h : (editAt cx m supply site).result = .ok (e, left)) :
    supply.slots.next ≤ left.slots.next := by
  obtain ⟨x, code, -, -, h, -⟩ := editAt_eq_ok h
  simp only [replacement, bind_eq_ok] at h
  obtain ⟨⟨slots, left⟩, hslots, _, -, _, -, h⟩ := h
  cases h
  exact (Supply.within_of_slotsFor hslots).le

theorem returns_of_replacement (h : replacement cx i x supply = .ok (code, left))
    (hreturns : cx.handler.returns = none) : x.produced = none := by
  simp only [replacement, bind_eq_ok] at h
  obtain ⟨_, -, _, -, result, hresult, -⟩ := h
  unfold settleResult at hresult
  split at hresult <;> simp_all

theorem replaces_of_replacement {start low : Nat} {whole rest : Code}
    (hx : exchange i = .ok x) (hcount : x.consumed.length = cx.handler.parameters.length)
    (h : replacement cx i x supply = .ok (code, left)) (hlow : low ≤ supply.slots.next)
    (hdrop : whole.drop start = code ++ rest) (hask : begin i f = some (.ask q g)) :
    Replaces S cx.handler whole start (start + code.length) low q f g := by
  obtain ⟨hsite, htypes, hanswer, hkinds, hframe⟩ := asked_of_exchange hx hask
  have hcount' := htypes ▸ hcount
  obtain ⟨hyields, l, hagree, hexec⟩ :=
    exec_replacement (S := S) g.stack g.locals h htypes hanswer hcount' hkinds
  have hplain : ∀ i ∈ code, i.isPlain = true :=
    isPlain_of_depthAfter? (replacement_eq_ok hx hcount h).1.straight
  refine ⟨hsite, hframe, hkinds, hcount', fun hreturns => ?_, fun w v w' hv => ?_,
    l, fun k hk => hagree k (hk.trans_le hlow), ?_⟩
  · rw [hsite.admits, hanswer, returns_of_replacement h hreturns]
    rfl
  · rw [hsite.admits, ← hyields w v w' hv]
    exact fits_pushed v
  · rw [hframe]
    exact Surroundings.comesTo_plain hdrop hplain hexec fun _ _ => rfl

/-- In the place of a redirected site, whose instruction is gone, stands code that takes the site's
operands and leaves what comes of calling the handler on them, with no other effect on stack or
locals. -/
theorem replaces_effect (S : Surroundings Ref) {point : InjectionPoint} {n : Nat} {u : Draft}
    (haction : cx.directive.action = .redirect point)
    (h : (Weaver.weaveMethod cx).Done (Draft.ofMethod m) n u) :
    ∃ sites, Context.sites (Draft.ofMethod m) point = .ok sites ∧ sites.length = n ∧
      ∀ site ∈ sites, (∀ g : Frame Ref, ∃ q f, begin site.instruction f = some (.ask q g)) ∧
        ∃ before new after, Plan.StandsAt u.stream.entries m.code.length site.anchor.index
            before new after ∧
          (∀ entry ∈ new, m.code.length ≤ entry.1) ∧
          (∀ entry ∈ u.stream.entries, entry.1 ≠ site.anchor.index) ∧
          ∀ (q : Request Ref) (f g : Frame Ref), begin site.instruction f = some (.ask q g) →
            Replaces S cx.handler u.method.code before.length (before.length + new.length)
              m.localsInUse q f g := by
  have hplan : Weaver.plan cx (Draft.ofMethod m) = plan cx (Draft.ofMethod m) point := by
    rw [Weaver.plan, haction]
  obtain ⟨es, slots, first, hes, hlength, hlaid⟩ :=
    Weaver.exists_laid_of_done (fun _ hp => ready_of_plan (hplan ▸ hp)) h
  rw [hplan] at hes
  simp only [plan, Traced.bind_eq_ok, Traced.result_ofExcept, Traced.unless_fail_eq_ok] at hes
  obtain ⟨-, sites, hsites, hes⟩ := hes
  obtain ⟨hcount, hplanned, -⟩ := Plan.planned_of_ofSites (fun _ _ _ _ => next_le_of_editAt) hes
  refine ⟨sites, hsites, hcount.symm.trans hlength, fun site hsite => ?_⟩
  obtain ⟨e, he, supply, left, hedit, hlow⟩ := hplanned site hsite
  obtain ⟨x, code, hx, hoperands, hcode, rfl⟩ := editAt_eq_ok hedit
  have hi := CodeStream.getElem?_of_names_ofList
    ((Context.located_of_sites hsites).names site hsite)
  obtain ⟨before, after, hstands⟩ := Plan.exists_standsAt he hlaid.index hi hlaid.first
  rw [← hlaid.entries] at hstands
  have hnew : ∀ entry ∈ code.numbered (first site.anchor.index), m.code.length ≤ entry.1 :=
    fun _ => hlaid.le_of_mem_numbered
  have hdrop : u.method.code.drop before.length = code ++ after.map Prod.snd := by
    rw [Draft.drop_eq hstands.entries, Edit.expand, map_snd_numbered]
  refine ⟨exists_ask hx, before, _, after, hstands, hnew,
    hstands.ne (List.getElem?_eq_some_iff.1 hi).1 hnew, fun q f g hask => ?_⟩
  rw [Edit.expand, length_numbered]
  exact replaces_of_replacement hx hoperands hcode hlow hdrop hask

/-- Calls a method with a receiver, a narrow argument and a wide one. -/
def callingMethod : Method where
  name := .set
  signature := ⟨[], some .int⟩
  flags := Flags.ofBits _ staticFlag
  maxStack := 4
  maxLocals := 0
  code := [.pushConstant .null, .pushConstant (.int 7), .pushConstant (.long 5),
    .invoke .virtual ⟨.number, .get, ⟨[.int, .base .long], some .int⟩⟩, .ret (some .int)]

def callPoint : InjectionPoint := ⟨.calls (.permissive "get") 0, 0, .before⟩

/-- Reads a field. -/
def readingMethod : Method where
  name := .set
  signature := ⟨[], some .int⟩
  flags := Flags.ofBits _ staticFlag
  maxStack := 1
  maxLocals := 0
  code := [.pushConstant .null, .field .getField ⟨.number, .get, .int⟩, .ret (some .int)]

def readPoint : InjectionPoint := ⟨.fieldAccesses (.permissive "get") 0, 0, .before⟩

/-- Has to be called on an instance and returns an object. -/
def substituteHandler (parameters : List ValueType) : Handler where
  reference := ⟨.number, .valueOf, ⟨parameters, some (.object .object)⟩⟩
  body := ⟨.valueOf, ⟨parameters, some (.object .object)⟩, Flags.ofBits _ 0, 1, 6,
    [.pushConstant .null, .ret (some .reference)]⟩

def substituteContext (parameters : List ValueType) (point : InjectionPoint) : Context where
  settings := .standard
  cls := .object
  directive := ⟨.object, ⟨.set, none⟩, (substituteHandler parameters).reference, 0, false,
    .redirect point⟩
  handler := substituteHandler parameters

def unboxingScript : MethodRef → Value Nat := fun m =>
  if m.name = .intValue then .int 42 else .reference none

/-- The call hands over its arguments as wide ones, the read its object; both leave 42. -/
theorem call_and_read_redirected :
    (∃ u before new after l, (Weaver.weaveMethod (substituteContext
          [.object .object, .base .long, .base .long] callPoint)).Done
        (Draft.ofMethod callingMethod) 1 u ∧
      Plan.StandsAt u.stream.entries 5 3 before new after ∧
      ∀ (w : Nat) y, (Surroundings.scripted unboxingScript).Leaves u.method.code before.length
          (before.length + new.length) (.at before.length w
            ⟨stacked [.reference none, .int 7, .long 5], fun _ => none⟩) y ↔
        y = .at (before.length + new.length) (w + 1 : Nat) ⟨[.value (.int 42)], l⟩) ∧
    ∃ u before new after l, (Weaver.weaveMethod (substituteContext
          [.object .object] readPoint)).Done
        (Draft.ofMethod readingMethod) 1 u ∧
      Plan.StandsAt u.stream.entries 3 1 before new after ∧
      ∀ (w : Nat) y, (Surroundings.scripted unboxingScript).Leaves u.method.code before.length
          (before.length + new.length) (.at before.length w
            ⟨[.value (.reference none)], fun _ => none⟩) y ↔
        y = .at (before.length + new.length) (w + 1 : Nat) ⟨[.value (.int 42)], l⟩ := by
  constructor
  · have hdone : (Weaver.weaveMethod (substituteContext
          [.object .object, .base .long, .base .long] callPoint)).Done
        (Draft.ofMethod callingMethod) 1 _ := ⟨by decide +kernel, rfl⟩
    have hlocated : Context.sites (Draft.ofMethod callingMethod) callPoint = .ok [⟨⟨0, 3⟩,
        .invoke .virtual ⟨.number, .get, ⟨[.int, .base .long], some .int⟩⟩⟩] := rfl
    obtain ⟨sites, hsites, -, hall⟩ := replaces_effect (.scripted unboxingScript) rfl hdone
    cases hlocated.symm.trans hsites
    obtain ⟨-, before, new, after, hstands, -, -, heffect⟩ := hall _ List.mem_cons_self
    obtain ⟨l, -, hleaves⟩ := (heffect _
      ⟨stacked [.reference none, .int 7, .long 5], fun _ => none⟩ ⟨[], fun _ => none⟩ rfl).comesTo
    have hresult (w : Nat) : redirected (.scripted unboxingScript)
        (substituteHandler [.object .object, .base .long, .base .long])
        (.call .virtual ⟨.number, .get, ⟨[.int, .base .long], some .int⟩⟩
          [.reference none, .int 7, .long 5]) w = some (some (.int 42), (w + 1 : Nat)) := rfl
    exact ⟨_, before, new, after, l, hdone, hstands, fun w y => hleaves.leaves_iff (hresult w)⟩
  · have hdone : (Weaver.weaveMethod (substituteContext [.object .object] readPoint)).Done
        (Draft.ofMethod readingMethod) 1 _ := ⟨by decide +kernel, rfl⟩
    have hlocated : Context.sites (Draft.ofMethod readingMethod) readPoint = .ok [⟨⟨0, 1⟩,
        .field .getField ⟨.number, .get, .int⟩⟩] := rfl
    obtain ⟨sites, hsites, -, hall⟩ := replaces_effect (.scripted unboxingScript) rfl hdone
    cases hlocated.symm.trans hsites
    obtain ⟨-, before, new, after, hstands, -, -, heffect⟩ := hall _ List.mem_cons_self
    obtain ⟨l, -, hleaves⟩ := (heffect _ ⟨[.value (.reference none)], fun _ => none⟩
      ⟨[], fun _ => none⟩ rfl).comesTo
    have hresult (w : Nat) : redirected (.scripted unboxingScript)
        (substituteHandler [.object .object]) (.access .getField ⟨.number, .get, .int⟩
          [.reference none]) w = some (some (.int 42), (w + 1 : Nat)) := rfl
    exact ⟨_, before, new, after, l, hdone, hstands, fun w y => hleaves.leaves_iff (hresult w)⟩

end Redirect

end CodeWeaving
