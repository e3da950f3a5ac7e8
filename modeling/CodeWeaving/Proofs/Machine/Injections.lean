import CodeWeaving.Proofs.Machine.InjectedCalls
import CodeWeaving.Proofs.Weaving.Layout

/-! Injected code as a whole: it calls the handler and then either lets the method go on as if
nothing had been, or ends it there and then. -/
namespace CodeWeaving.Inject

open Code Machine

/-- Whether the method goes on after an injection. -/
inductive Verdict (Ref : Type) where
  | goOn
  | leave (result : Option (Value Ref))

variable {Ref : Type} {S : Surroundings Ref} {cx : Context} {m : Method}
  {params : List Supplied} {pc : Nat}
  {slot : UInt16} {cls : ClassName} {code block arguments post : Code} {stack : List (Slot Ref)}
  {l : Locals Ref} {token : Value Ref} {values : List (Value Ref)} {cancellable : Bool}
  {skip : Label} {supply left : Supply} {w : S.World} {y : S.Config}

/-- What a method that is left early returns: what the token carries, else a zero value. -/
def earlyResult (S : Surroundings Ref) (cx : Context) (m : Method) (cls : ClassName)
    (token : Value Ref) : StateT S.World Option (Option (Value Ref)) :=
  match m.signature.returns with
  | none => pure none
  | some type =>
    if isReturnable cx cls then do
      let v ← S.answerValue
        (.call .virtual ⟨cls, .getReturnValue, ⟨[], some (.object .object)⟩⟩ [token])
      some <$> S.convert (.object .object) type v
    else pure (some (.zero type.kind))

/-- What a token says that a method may be cancelled with. -/
def verdict (S : Surroundings Ref) (cx : Context) (m : Method) (cls : ClassName)
    (token : Value Ref) : StateT S.World Option (Verdict Ref) := do
  let cancelled ← S.answerValue (.call .virtual ⟨cls, .isCancelled, ⟨[], some .boolean⟩⟩ [token])
  if passes .ifZero cancelled then pure .goOn
  else .leave <$> earlyResult S cx m cls token

/-- The handler is called on the method's arguments and on a new token, for the token. -/
def tokenAfterCall (S : Surroundings Ref) (cx : Context) (m : Method) (cls : ClassName)
    (cancellable : Bool) (params : List Supplied) (values : List (Value Ref)) :
    StateT S.World Option (Value Ref) := do
  let token ← freshToken S cx m cls cancellable
  let _ ← S.callHandler cx.handler (given S token params (m.signature.parameters.zip values))
  pure token

/-- What comes of an injection, with the token if there is one. Only a token that may be cancelled
is asked whether it has been. -/
def injected (S : Surroundings Ref) (cx : Context) (m : Method) (cancellable : Bool)
    (params : List Supplied) (values : List (Value Ref)) :
    StateT S.World Option (Option (Value Ref) × Verdict Ref) :=
  match (tokens params).head? with
  | none => do
    let _ ← S.callHandler cx.handler
      (given S (.reference none) params (m.signature.parameters.zip values))
    pure (none, .goOn)
  | some cls => do
    let token ← tokenAfterCall S cx m cls cancellable params values
    let verdict ← (if cancellable then verdict S cx m cls token else pure .goOn)
    pure (some token, verdict)

/-- Where a verdict leads: behind the injected code, with a frame, or out of the method. -/
def Verdict.outcome {S : Surroundings Ref} (stop : Nat) (w : S.World) (f : Frame Ref) :
    Verdict Ref → S.Config
  | .goOn => .at stop w f
  | .leave result => .returned result w

/-- A token is asked for a value. -/
theorem exec_askToken {name : MemberName} {type : ValueType} (htoken : token.kind = .reference)
    (hslot : l.Holds slot.toNat token) :
    S.exec [.loadLocal slot .reference, .invoke .virtual ⟨cls, name, ⟨[], some type⟩⟩] ⟨stack, l⟩ =
      (do
        let v ← S.answerValue (.call .virtual ⟨cls, name, ⟨[], some type⟩⟩ [token])
        pure ⟨v.slots ++ stack, l⟩) := by
  have hoperands : token.slots ++ stack = stacked [token] ++ stack := rfl
  rw [Surroundings.exec_cons, ← htoken, Surroundings.execute_loadLocal hslot, pure_bind, hoperands,
    Surroundings.exec_singleton, Surroundings.execute_invoke_value (k := type.kind) _ rfl]
  rw [List.map_singleton, htoken]
  rfl

/-- The code of an early return, up to the return itself. -/
theorem exists_exec_earlyReturn (stack : List (Slot Ref)) (h : earlyReturn cx m cls slot = .ok code)
    (htoken : token.kind = .reference) (hslot : l.Holds slot.toNat token) :
    ∃ leave : Code, code = leave ++ [.ret (m.signature.returns.map ValueType.kind)] ∧
      (∀ i ∈ leave, i.isPlain = true) ∧
      Yields (earlyResult S cx m cls token) (fun v =>
        v.map Value.kind = m.signature.returns.map ValueType.kind) ∧
      S.exec leave ⟨stack, l⟩ =
        (do
          let v ← earlyResult S cx m cls token
          pure ⟨pushed v ++ stack, l⟩) := by
  unfold earlyReturn at h
  unfold earlyResult
  cases hreturns : m.signature.returns with
  | none =>
    rw [hreturns] at h
    cases h
    exact ⟨[], rfl, by simp, .pure rfl, rfl⟩
  | some type =>
    rw [hreturns] at h
    dsimp only at h ⊢
    split at h
    · rename_i hcarries
      obtain ⟨conversion, hconversion, h⟩ := bind_eq_ok.1 h
      cases h
      have hask : Turns [.loadLocal slot .reference,
          .invoke .virtual ⟨cls, .getReturnValue, ⟨[], some (.object .object)⟩⟩] 0 1 := fun _ => rfl
      have hobject : Yields (S.answerValue
          (.call .virtual ⟨cls, .getReturnValue, ⟨[], some (.object .object)⟩⟩ [token]))
          fun v => v.kind = (ValueType.object .object).kind :=
        Surroundings.yields_answerValue rfl
      have hconvert := ValueType.coerce_eq_ok.1 hconversion
      rw [if_pos hcarries]
      refine ⟨_, rfl, (hask.append (ValueType.turns_coerce hconversion)).isPlain,
        hobject.bind fun v hv => ?_, ?_⟩
      · rw [map_eq_pure_bind]
        refine (Surroundings.yields_convert hconvert hv).bind fun v hv => .pure ?_
        rw [Option.map_some, hv, Option.map_some]
      · rw [Surroundings.exec_append, exec_askToken htoken hslot, bind_assoc, bind_assoc]
        refine hobject.bind_congr fun v hv => ?_
        rw [pure_bind, Surroundings.exec_convert hconvert hv, bind_map_left]
        rfl
    · rename_i hplain
      cases h
      rw [if_neg hplain]
      refine ⟨[type.pushZero], rfl, type.turns_pushZero.isPlain,
        .pure (congrArg some (Value.kind_zero _)), ?_⟩
      rw [Surroundings.exec_singleton, Surroundings.execute_pushZero]
      rfl

/-- An early return ends the method. -/
theorem comesTo_earlyReturn (stack : List (Slot Ref)) (h : earlyReturn cx m cls slot = .ok block)
    (htoken : token.kind = .reference) (hslot : l.Holds slot.toNat token)
    (hdrop : code.drop pc = block ++ post) {start stop : Nat} (hstart : start ≤ pc)
    (hstop : pc + block.length ≤ stop) :
    S.ComesTo code start stop pc ⟨stack, l⟩ (earlyResult S cx m cls token) .returned := by
  obtain ⟨leave, rfl, hplain, hyields, hexec⟩ :=
    exists_exec_earlyReturn (S := S) stack h htoken hslot
  rw [List.append_assoc] at hdrop
  rw [List.length_append, List.length_singleton] at hstop
  rw [← bind_pure (earlyResult S cx m cls token)]
  exact Surroundings.comesTo_exec hdrop hplain hstart (by omega) hexec hyields fun v hv =>
    Surroundings.comesTo_leave (Surroundings.drop_of_append hdrop) (Surroundings.begin_ret hv)
      (by omega) (by omega) fun _ => rfl

/-- After a cancellation the method goes on or ends, as the token says. -/
theorem comesTo_cancellation (stack : List (Slot Ref))
    (h : cancellation cx m cls slot skip = .ok block) (htoken : token.kind = .reference)
    (hslot : l.Holds slot.toNat token) (hdrop : code.drop pc = block ++ post)
    (hplaced : code.placed.Nodup) {start : Nat} (hstart : start ≤ pc) :
    S.ComesTo code start (pc + block.length) pc ⟨stack, l⟩ (verdict S cx m cls token)
      fun v w => v.outcome (pc + block.length) w ⟨stack, l⟩ := by
  obtain ⟨leave, hleave, h⟩ := bind_eq_ok.1 h
  cases h
  have htest : Turns [.loadLocal slot .reference,
      .invoke .virtual ⟨cls, .isCancelled, ⟨[], some .boolean⟩⟩] 0 1 := fun _ => rfl
  have hdrop₁ : code.drop pc = [.loadLocal slot .reference,
      .invoke .virtual ⟨cls, .isCancelled, ⟨[], some .boolean⟩⟩] ++
      (.branch .ifZero skip :: (leave ++ (.label skip :: post))) := by
    simpa using hdrop
  have hdrop₂ : code.drop (pc + 2) = _ := Surroundings.drop_of_append hdrop₁
  have hdrop₃ := (Surroundings.getElem?_of_drop hdrop₂).2
  have hdrop₄ := Surroundings.drop_of_append hdrop₃
  have hskip := Surroundings.placeOf_eq hplaced (Surroundings.getElem?_of_drop hdrop₄).1
  have hlength : pc + ([.loadLocal slot .reference, .invoke .virtual ⟨cls, .isCancelled,
      ⟨[], some .boolean⟩⟩, .branch .ifZero skip] ++ leave ++ [.label skip] : Code).length =
        pc + 2 + 1 + leave.length + 1 := by
    simp
    omega
  rw [hlength]
  refine Surroundings.comesTo_exec hdrop₁ htest.isPlain hstart (by simp; omega)
    (exec_askToken htoken hslot) (Surroundings.yields_answerValue (k := .int) rfl)
    fun cancelled hkind => ?_
  have hbegin : begin (.branch .ifZero skip) ⟨cancelled.slots ++ stack, l⟩ =
      some (if passes .ifZero cancelled then .jump skip ⟨stack, l⟩ else .go ⟨stack, l⟩) := by
    simp [begin, tested?, take_eq_some.2 ⟨hkind, rfl⟩]
  split
  · rename_i hzero
    rw [if_pos hzero] at hbegin
    exact Surroundings.comesTo_jump hdrop₂ hbegin hskip (by simp; omega) (by simp; omega)
      (Surroundings.comesTo_go hdrop₄ rfl (by omega) (by omega)
        (Surroundings.comesTo_pure (.inr (Nat.le_refl _)) fun _ => rfl))
  · rename_i hnonzero
    rw [if_neg hnonzero] at hbegin
    exact Surroundings.comesTo_go hdrop₂ hbegin (by simp; omega) (by simp; omega)
      (Surroundings.comesTo_map (comesTo_earlyReturn stack hleave htoken hslot hdrop₃ (by omega)
        (by omega)))

theorem yields_tokenAfterCall : Yields (tokenAfterCall S cx m cls cancellable params values)
    fun token => token.kind = .reference :=
  yields_freshToken.bind fun _ htoken => .bind .trivial fun _ _ => .pure htoken

theorem exec_tokenCall (hparams : params = cx.handler.parameters.map (supplied cx.settings))
    (h : loadSupplied m slot 0 params = .ok arguments) (hparameters : m.parameterLength < 2 ^ 16)
    (hvalues : m.ArgumentsHeld l values) (hslot : m.localsInUse ≤ slot.toNat) :
    S.exec (newToken cx m cls cancellable ++ [.storeLocal slot .reference] ++
        cx.handler.instantiate ++ arguments ++ [cx.handler.call] ++ cx.handler.dropResult)
        ⟨stack, l⟩ =
      (do
        let token ← tokenAfterCall S cx m cls cancellable params values
        pure ⟨stack, l.store slot.toNat token⟩) := by
  rw [List.append_assoc _ cx.handler.instantiate, List.append_assoc _ (cx.handler.instantiate ++ _),
    List.append_assoc _ (cx.handler.instantiate ++ _ ++ _), Surroundings.exec_append,
    Surroundings.exec_append, exec_newToken, tokenAfterCall, bind_assoc, bind_assoc, bind_assoc]
  refine yields_freshToken.bind_congr fun token htoken => ?_
  rw [pure_bind, Surroundings.exec_singleton, ← htoken, Surroundings.execute_storeLocal, pure_bind,
    exec_handlerCall hparams h hparameters (hvalues.of_agree (Locals.agree_store hslot))
      fun _ _ => ⟨htoken, Locals.holds_store⟩, bind_assoc]
  rfl

/-- Where a run through injected code comes out. -/
theorem comesTo_codeFor (stack : List (Slot Ref))
    (hparams : params = cx.handler.parameters.map (supplied cx.settings))
    (h : codeFor cx m cancellable params supply = .ok (block, left))
    (hparameters : m.parameterLength < 2 ^ 16) (hlow : m.localsInUse ≤ supply.slots.next)
    (hvalues : m.ArgumentsHeld l values) (hdrop : code.drop pc = block ++ post)
    (hplaced : code.placed.Nodup) :
    ∃ locals : Option (Value Ref) → Locals Ref,
      (∀ token, Locals.Agree m.localsInUse l (locals token)) ∧
        S.ComesTo code pc (pc + block.length) pc ⟨stack, l⟩
          (injected S cx m cancellable params values)
          fun r w => r.2.outcome (pc + block.length) w ⟨stack, locals r.1⟩ := by
  unfold codeFor at h
  unfold injected
  cases htoken : (tokens params).head? with
  | none =>
    rw [htoken] at h
    obtain ⟨arguments, harguments, h⟩ := bind_eq_ok.1 h
    cases h
    have hnone : TokenHeld params l 0 (.reference none) := by
      intro cls hcls
      have hmem : cls ∈ tokens params := List.mem_filterMap.2 ⟨_, hcls, rfl⟩
      rw [List.head?_eq_none_iff.1 htoken] at hmem
      cases hmem
    exact ⟨fun _ => l, fun _ => .refl, Surroundings.comesTo_exec hdrop
      (turns_call hparams harguments).isPlain (Nat.le_refl _) (Nat.le_refl _)
      (exec_handlerCall hparams harguments hparameters hvalues hnone) .trivial fun _ _ =>
        Surroundings.comesTo_pure (.inr (Nat.le_refl _)) fun _ => rfl⟩
  | some cls =>
    rw [htoken] at h
    simp only [tokenCall, bind_eq_ok] at h
    obtain ⟨⟨slot, supply'⟩, hslot, arguments, harguments, h⟩ := h
    have hslot : m.localsInUse ≤ slot.toNat := hlow.trans (Supply.slot_eq_ok hslot).1.ge
    refine ⟨fun token => token.elim l (l.store slot.toNat), fun token => ?_, ?_⟩
    · cases token with
      | none => exact .refl
      | some token => exact Locals.agree_store hslot
    cases cancellable with
    | false =>
      cases h
      exact Surroundings.comesTo_exec hdrop (turns_tokenCall hparams harguments).isPlain
        (Nat.le_refl _) (Nat.le_refl _)
        (exec_tokenCall hparams harguments hparameters hvalues hslot) .trivial fun _ _ =>
          Surroundings.comesTo_pure (.inr (Nat.le_refl _)) fun _ => rfl
    | true =>
      obtain ⟨leave, hleave, h⟩ := bind_eq_ok.1 h
      cases h
      rw [List.append_assoc] at hdrop
      rw [List.length_append, ← Nat.add_assoc]
      refine Surroundings.comesTo_exec hdrop (turns_tokenCall hparams harguments).isPlain
        (Nat.le_refl _) (Nat.le_add_right _ _)
        (exec_tokenCall hparams harguments hparameters hvalues hslot) yields_tokenAfterCall
        fun token htoken => ?_
      exact Surroundings.comesTo_map (comesTo_cancellation stack hleave htoken Locals.holds_store
        (Surroundings.drop_of_append hdrop) hplaced (Nat.le_add_right pc _))

theorem next_le_of_editAt {point : InjectionPoint} {site : Site} {e : Edit}
    (h : (editAt cx m point cancellable params supply site).result = .ok (e, left)) :
    supply.slots.next ≤ left.slots.next := by
  obtain ⟨code, h, -⟩ := editAt_eq_ok h
  unfold codeFor at h
  split at h
  · obtain ⟨_, -, h⟩ := bind_eq_ok.1 h
    cases h
    exact Nat.le_refl _
  · simp only [tokenCall, bind_eq_ok] at h
    obtain ⟨⟨slot, between⟩, hslot, _, -, h⟩ := h
    have hle : supply.slots.next ≤ between.slots.next :=
      (Supply.slot_eq_ok hslot).2 ▸ Nat.le_add_right _ _
    split at h
    · obtain ⟨_, -, h⟩ := bind_eq_ok.1 h
      cases h
      exact hle
    · cases h
      exact hle

/-- Injected code stands right at its site. Coming to it with the arguments in their slots, the
method calls the handler on them and then goes on at the site with the same stack and the same
locals, or, if it may be cancelled and was, returns at once. -/
theorem transparent_unless_cancelled (S : Surroundings Ref) {point : InjectionPoint} {n : Nat}
    {u : Draft} (haction : cx.directive.action = .inject point cancellable)
    (h : (Weaver.weaveMethod cx).Done (Draft.ofMethod m) n u) :
    ∃ sites params, Context.sites (Draft.ofMethod m) point = .ok sites ∧ sites.length = n ∧
      classify cx m = .ok params ∧
      ∀ site ∈ sites, ∃ before block after, u.stream.entries = before ++ block ++ after ∧
        (match placement point with
          | .before => after.head?
          | .after => before.getLast?) = some (site.anchor.index, site.instruction) ∧
        (∀ entry ∈ block, m.code.length ≤ entry.1) ∧
        ∀ (f : Frame Ref) values, m.ArgumentsHeld f.locals values →
          ∃ locals : Option (Value Ref) → Locals Ref,
            (∀ token, Locals.Agree m.localsInUse f.locals (locals token)) ∧
              S.ComesTo u.method.code before.length (before.length + block.length) before.length f
                (injected S cx m cancellable params values)
                fun r w => r.2.outcome (before.length + block.length) w ⟨f.stack, locals r.1⟩ := by
  have hplan : Weaver.plan cx (Draft.ofMethod m) =
      plan cx (Draft.ofMethod m) point cancellable := by
    rw [Weaver.plan, haction]
  obtain ⟨es, slots, first, hes, hlength, hlaid⟩ :=
    Weaver.exists_laid_of_done (fun _ hp => ready_of_plan (hplan ▸ hp)) h
  rw [hplan] at hes
  obtain ⟨sites, params, hsites, hparams, hes⟩ := sites_of_plan hes
  obtain ⟨hcount, hplanned, -⟩ := Plan.planned_of_ofSites (fun _ _ _ _ => next_le_of_editAt) hes
  refine ⟨sites, params, hsites, hcount.symm.trans hlength, hparams, fun site hsite => ?_⟩
  obtain ⟨e, he, supply, left, hedit, hlow⟩ := hplanned site hsite
  obtain ⟨code, hcode, rfl⟩ := editAt_eq_ok hedit
  have hi := CodeStream.getElem?_of_names_ofList
    ((Context.located_of_sites hsites).names site hsite)
  obtain ⟨before, after, hstands⟩ := Plan.exists_standsAt he hlaid.index
    (by rwa [Edit.anchor_insert]) hlaid.first
  rw [← hlaid.entries, Edit.anchor_insert] at hstands
  have hnew : ∀ entry ∈ code.numbered (first site.anchor.index), m.code.length ≤ entry.1 :=
    fun _ => hlaid.le_of_mem_numbered
  have hblock {before after : List (Nat × Instruction)}
      (hentries : u.stream.entries = before ++ code.numbered (first site.anchor.index) ++ after)
      (f : Frame Ref) (values : List (Value Ref)) (hvalues : m.ArgumentsHeld f.locals values) :=
    comesTo_codeFor (S := S) f.stack (params_of_classify hparams) hcode
      hlaid.parameters hlow hvalues
      (show u.method.code.drop before.length = code ++ after.map Prod.snd by
        rw [Draft.drop_eq hentries, map_snd_numbered]) hlaid.labels
  cases hplacement : placement point with
  | before =>
    have hentries : u.stream.entries = before ++ code.numbered (first site.anchor.index) ++
        (site.anchor.index, site.instruction) :: after := by
      simpa [hplacement, Edit.insert, Edit.expand] using hstands.entries
    refine ⟨before, _, _, hentries, rfl, hnew, fun f values hvalues => ?_⟩
    rw [length_numbered]
    exact hblock hentries f values hvalues
  | after =>
    have hentries : u.stream.entries = (before ++ [(site.anchor.index, site.instruction)]) ++
        code.numbered (first site.anchor.index) ++ after := by
      simpa [hplacement, Edit.insert, Edit.expand] using hstands.entries
    refine ⟨_, _, after, hentries, List.getLast?_concat, hnew, fun f values hvalues => ?_⟩
    rw [length_numbered]
    exact hblock hentries f values hvalues

/-- Takes an argument as a wide one, and a token. -/
def askingHandler : Handler where
  reference := ⟨.number, .valueOf,
    ⟨[.base .long, .object Settings.standard.returnableToken], none⟩⟩
  body := ⟨.valueOf, ⟨[.base .long, .object Settings.standard.returnableToken], none⟩,
    Flags.ofBits _ 0, 0, 4, [.ret none]⟩

def returnPoint : InjectionPoint := ⟨.returns, 0, .before⟩

def askingContext : Context where
  settings := .standard
  cls := .object
  directive := ⟨.object, ⟨.valueOf, none⟩, askingHandler.reference, 0, false,
    .inject returnPoint true⟩
  handler := askingHandler

/-- A token is cancelled and carries a boxed value. -/
def cancellingScript : MethodRef → Value Nat := fun m =>
  if m.name = .isCancelled then .int 1 else if m.name = .intValue then .int 42 else .reference none

theorem guardedMethod_cancelled : ∃ u before block after,
    (Weaver.weaveMethod askingContext).Done (Draft.ofMethod Weaver.guardedMethod) 2 u ∧
      u.stream.entries = before ++ block ++ after ∧ after.head? = some (3, .ret (some .int)) ∧
      ∀ (w : Nat) y, (Surroundings.scripted cancellingScript).Leaves u.method.code before.length
          (before.length + block.length) (.at before.length w
            ⟨[.value (.int 7)], Locals.store (fun _ => none) 0 (.int 5)⟩) y ↔
        y = .returned (some (.int 42)) (w + 3 : Nat) := by
  have hdone : (Weaver.weaveMethod askingContext).Done (Draft.ofMethod Weaver.guardedMethod) 2 _ :=
    ⟨by decide +kernel, rfl⟩
  have hlocated : Context.sites (Draft.ofMethod Weaver.guardedMethod) returnPoint =
      .ok [⟨⟨0, 3⟩, .ret (some .int)⟩, ⟨⟨0, 6⟩, .ret (some .int)⟩] := rfl
  have hheld : Weaver.guardedMethod.ArgumentsHeld
      (Locals.store (fun _ => none) 0 (.int 5) : Locals Nat) [.int 5] :=
    ⟨rfl, Locals.holds_store, trivial⟩
  have haction : askingContext.directive.action = .inject returnPoint true := rfl
  obtain ⟨sites, params, hsites, -, hparams, hall⟩ :=
    transparent_unless_cancelled (.scripted cancellingScript) haction hdone
  cases hlocated.symm.trans hsites
  cases params_of_classify hparams
  obtain ⟨before, block, after, hentries, hafter, -, hblock⟩ := hall _ List.mem_cons_self
  obtain ⟨locals, -, hleaves⟩ := hblock ⟨[.value (.int 7)], _⟩ _ hheld
  have hresult (w : Nat) : injected (.scripted cancellingScript) askingContext Weaver.guardedMethod
      true (askingHandler.parameters.map (supplied .standard)) [.int 5] w =
        some ((some (.reference (some w)), .leave (some (.int 42))), (w + 3 : Nat)) := rfl
  refine ⟨_, before, block, after, hdone, hentries, hafter, fun w y => (hleaves w y).trans ?_⟩
  constructor
  · rintro ⟨r, w', hr, rfl⟩
    cases (hresult w).symm.trans hr
    rfl
  · rintro rfl
    exact ⟨_, _, hresult w, rfl⟩

end CodeWeaving.Inject
