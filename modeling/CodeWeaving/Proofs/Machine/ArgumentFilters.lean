import CodeWeaving.Proofs.Machine.Filters
import CodeWeaving.Proofs.Machine.Redirects
import CodeWeaving.Proofs.Weaving.Accounting

/-! Calls of which one argument passes through a handler: what else lies on the stack stays. -/
namespace CodeWeaving

open Code Machine

/-- Everything but one value stays in its place between the values below and above it. -/
theorem Machine.stacked_split {Ref : Type} (below above : List (Value Ref)) (v : Value Ref)
    (stack : List (Slot Ref)) : stacked (below ++ v :: above) ++ stack =
      stacked above ++ (v.slots ++ (stacked below ++ stack)) := by
  simp [stacked_append, stacked]

theorem Handler.filter_eq_error {h : Handler} {value parameter result : ValueType} {e : WeaveError}
    (hfilter : h.filter value parameter result = .error e) : ∃ fault, e = .typeMismatch fault := by
  have hcoerce {s t : ValueType} (h : s.coerce t = .error e) : ∃ fault, e = .typeMismatch fault :=
    ⟨_, (ValueType.coerce_eq_error.1 h).2⟩
  rcases bind_eq_error.1 hfilter with hthere | ⟨there, -, hfilter⟩
  · exact hcoerce hthere
  · rcases bind_eq_error.1 hfilter with hback | ⟨back, -, hfilter⟩
    · exact hcoerce hback
    · cases hfilter

namespace ModifyArgument

variable {Ref : Type} {S : Surroundings Ref} {cx : Context} {m : Method} {call : MethodRef}
  {index : Option UInt64} {parameter result modified : ValueType} {above : List ValueType} {i : Nat}
  {code : Code} {supply left : Supply} {v : Value Ref} {values : List (Value Ref)}
  {e : WeaveError}

/-- The position that is meant in a call: the one given, or that of the only argument of the
parameter's type. -/
def Means (call : MethodRef) (parameter : ValueType) : Option UInt64 → Nat → Prop
  | some k, i => i = k.toNat ∧ i < call.signature.parameters.length
  | none, i => call.signature.parameters[i]? = some parameter ∧
      ∀ j, call.signature.parameters[j]? = some parameter → j = i

/-- Why no position is meant in a call. -/
def refusal (call : MethodRef) : Option UInt64 → TypeFault
  | some k => .noArgument call k
  | none => .unclearArgument call

theorem chooseIndex_eq_ok : chooseIndex call index parameter = .ok i ↔
    Means call parameter index i := by
  unfold chooseIndex
  cases index with
  | some k =>
    rw [Means]
    dsimp only
    split
    · rename_i hlt
      rw [Except.ok.injEq, eq_comm]
      exact ⟨fun h => ⟨h, h ▸ hlt⟩, And.left⟩
    · rename_i hge
      exact ⟨fun h => (by cases h), fun h => absurd (h.1 ▸ h.2) hge⟩
  | none =>
    rw [Means, ← inferIndex?_eq_some]
    dsimp only
    cases inferIndex? call.signature.parameters parameter <;> simp

/-- Where no position is meant, that is what is reported. -/
theorem chooseIndex_eq_error (h : ∀ i, ¬ Means call parameter index i) :
    chooseIndex call index parameter = .error (.typeMismatch (refusal call index)) := by
  cases hchoose : chooseIndex call index parameter with
  | ok i => exact absurd (chooseIndex_eq_ok.1 hchoose) (h i)
  | error e =>
    unfold chooseIndex at hchoose
    split at hchoose
    · split at hchoose <;> cases hchoose
      rfl
    · split at hchoose <;> cases hchoose
      rfl

/-- The values above the one that is changed go to slots and come back. -/
theorem exec_codeFor (htypes : cx.handler.filter? = some (parameter, result))
    (h : codeFor cx parameter result modified above supply = .ok (code, left))
    (hv : v.kind = modified.kind) (hvalues : values.map Value.kind = above.map ValueType.kind)
    (below : List (Value Ref)) (stack : List (Slot Ref)) (l : Locals Ref) :
    ∃ l', Locals.Agree supply.slots.next l l' ∧
      S.exec code ⟨stacked (below ++ v :: values) ++ stack, l⟩ =
        (do
          let v' ← S.passed cx.handler modified parameter result v
          pure ⟨stacked (below ++ v' :: values) ++ stack, l'⟩) := by
  simp only [codeFor, bind_eq_ok] at h
  obtain ⟨⟨slots, left⟩, hslots, filter, hfilter, h⟩ := h
  cases h
  have hlen : slots.length = above.length := by
    rw [Supply.length_slotsFor hslots, List.length_map]
  have hwithin := Supply.within_of_slotsFor hslots
  have hkinds : values.map Value.kind = (slots.zip above).map fun x => x.2.kind :=
    calc values.map Value.kind = above.map ValueType.kind := hvalues
      _ = ((slots.zip above).map Prod.snd).map ValueType.kind := by rw [List.map_snd_zip hlen.ge]
      _ = (slots.zip above).map fun x => x.2.kind := List.map_map
  have hheld := Spill.held_filled (l := l) hwithin hkinds
  refine ⟨Spill.filled l (slots.zip above) values, Spill.agree_filled hwithin, ?_⟩
  rw [stacked_split, Surroundings.exec_append, Surroundings.exec_append,
    Surroundings.exec_store hkinds, pure_bind, Surroundings.exec_filter htypes hfilter hv,
    bind_assoc]
  refine bind_congr fun v' => ?_
  rw [pure_bind, Surroundings.exec_load hheld, stacked_split]

theorem yields_of_codeFor (hfilter : cx.handler.filter? = some (parameter, result))
    (h : codeFor cx parameter result modified above supply = .ok (code, left)) (v : Value Ref) :
    Yields (S.passed cx.handler modified parameter result v) fun v' => v'.kind = modified.kind := by
  simp only [codeFor, bind_eq_ok] at h
  obtain ⟨_, -, filter, hcode, -⟩ := h
  exact Surroundings.yields_passed hfilter hcode

section Sites

variable {site : CallSite} {edit : Edit}

theorem next_le_of_editAt (h : (editAt cx m index parameter result supply site).result =
    .ok (edit, left)) : supply.slots.next ≤ left.slots.next := by
  obtain ⟨i, modified, code, -, -, h, -⟩ := editAt_eq_ok h
  simp only [codeFor, bind_eq_ok] at h
  obtain ⟨⟨slots, left⟩, hslots, _, -, h⟩ := h
  cases h
  exact (Supply.within_of_slotsFor hslots).le

end Sites

/-- An argument of a call between those below and those above it. -/
theorem exists_split {arguments : List (Value Ref)} {types : List ValueType}
    (h : types[i]? = some modified)
    (harguments : arguments.map Value.kind = types.map ValueType.kind) :
    ∃ below v above, arguments = below ++ v :: above ∧ below.length = i ∧ v.kind = modified.kind ∧
      above.map Value.kind = (types.drop (i + 1)).map ValueType.kind := by
  have hkind := congrArg (fun kinds => kinds[i]?) harguments
  simp only [List.getElem?_map, h, Option.map_some, Option.map_eq_some_iff] at hkind
  obtain ⟨v, hv, hkind⟩ := hkind
  obtain ⟨hlt, rfl⟩ := List.getElem?_eq_some_iff.1 hv
  refine ⟨arguments.take i, _, arguments.drop (i + 1), ?_, List.length_take_of_le hlt.le, hkind, ?_⟩
  · rw [List.getElem_cons_drop, List.take_append_drop]
  · rw [List.map_drop, harguments, ← List.map_drop]

section Refusals

variable {site : CallSite}

/-- Planning for a call fails for its types, or because the slots run out. -/
theorem editAt_eq_error (h : (editAt cx m index parameter result supply site).result = .error e) :
    (∃ fault, e = .typeMismatch fault) ∨ e = .tooManyLocals := by
  simp only [editAt, codeFor, Traced.bind_eq_error, bind_eq_error, Traced.result_ofExcept] at h
  rcases h with h | ⟨i, -, h | ⟨-, -, (h | ⟨_, -, h | ⟨_, -, h⟩⟩) | ⟨_, -, h⟩⟩⟩
  · by_cases hmeans : ∃ i, Means site.call parameter index i
    · obtain ⟨i, hi⟩ := hmeans
      cases (chooseIndex_eq_ok.2 hi).symm.trans h
    · cases (chooseIndex_eq_error fun i hi => hmeans ⟨i, hi⟩).symm.trans h
      exact .inl ⟨_, rfl⟩
  · cases h
  · exact .inr (SlotAllocator.allocateAll_eq_error (map_eq_error.1 h))
  · exact .inl (Handler.filter_eq_error h)
  · cases h
  · cases h

theorem editAt_of_refused (h : ∀ i, ¬ Means site.call parameter index i) :
    (editAt cx m index parameter result supply site).result =
      .error (.typeMismatch (refusal site.call index)) := by
  rw [editAt, Traced.result_bind, Traced.result_ofExcept, chooseIndex_eq_error h]
  rfl

/-- Planning ends at a call for which no position is meant, if not at one before it. -/
theorem editSites_of_refused (cx : Context) (m : Method) (result : ValueType) (supply : Supply)
    (before after : List CallSite) (h : ∀ i, ¬ Means site.call parameter index i) :
    ∃ e, (Plan.editSites (editAt cx m index parameter result) supply
        (before ++ site :: after)).result = .error e ∧
      (e = .typeMismatch (refusal site.call index) ∨
        (Plan.editSites (editAt cx m index parameter result) supply before).result = .error e ∧
          ((∃ fault, e = .typeMismatch fault) ∨ e = .tooManyLocals)) := by
  induction before generalizing supply with
  | nil =>
    refine ⟨_, ?_, .inl rfl⟩
    rw [List.nil_append, Plan.editSites, Traced.result_bind, editAt_of_refused h]
    rfl
  | cons first before ih =>
    simp only [List.cons_append, Plan.editSites, Traced.bind_eq_error]
    cases hfirst : (editAt cx m index parameter result supply first).result with
    | error e => exact ⟨e, .inl rfl, .inr ⟨.inl rfl, editAt_eq_error hfirst⟩⟩
    | ok planned =>
      obtain ⟨edit, left⟩ := planned
      obtain ⟨e, he, hcause⟩ := ih left
      exact ⟨e, .inr ⟨_, rfl, .inl he⟩,
        hcause.imp_right (And.imp_left fun hbefore => .inr ⟨_, rfl, .inl hbefore⟩)⟩

end Refusals

/-- Weaving ends at a method and leaves it as it was, and so does a directive that has met no fault
in the methods before it. -/
structure Ends (cx : Context) (m : Method) (e : WeaveError) : Prop where
  failed : (Weaver.weaveMethod cx).Failed (Draft.ofMethod m) e (Draft.ofMethod m)
  outcome : ∀ (c : ClassDefinition) (handlers : HandlerProvider) (number : Nat)
    (earlier later : List Method),
    Weaver.contextOf cx.settings c.name cx.directive cx.handler.body = cx →
    cx.directive.targetClass = c.name → handlers cx.directive.handler = some cx.handler.body →
    Weaver.own cx.directive c = earlier ++ m :: later →
    (∀ k ∈ earlier, ∀ e, ¬ Weaver.Faults cx k e) →
    (Weaver.weaveOne cx.settings handlers c number cx.directive).2.1 =
      ⟨number, cx.directive, [], 0, Weaver.statusOf cx.directive e⟩

theorem ends_of_failed (h : (Weaver.weaveMethod cx).Failed (Draft.ofMethod m) e (Draft.ofMethod m))
    (he : ∀ sought, e ≠ .noMatch sought) : Ends cx m e where
  failed := h
  outcome c handlers number earlier later hcx hclass hhandler hown hearlier := by
    have hfault : Weaver.Faults cx m e := ⟨h.1, he⟩
    rw [← hcx] at hearlier hfault
    exact Weaver.outcome_of_fault hclass hhandler hown hearlier hfault

/-- In the woven method, new code right before a call has the argument that is meant come to what
the handler makes of it. The receiver, the other arguments, everything below them and the locals
of the method stay as they are. -/
def ChangesOnly (S : Surroundings Ref) (cx : Context) (m : Method) (u : Draft)
    (index : Option UInt64) (parameter result : ValueType) (site : CallSite) : Prop :=
  ∃ kind i modified start stop,
    Weaver.Beside m u .before site.anchor.index (.invoke kind site.call) start stop ∧
    Means site.call parameter index i ∧ site.call.signature.parameters[i]? = some modified ∧
    ∀ (receiver arguments : List (Value Ref)) (stack : List (Slot Ref)) (l : Locals Ref),
      arguments.map Value.kind = site.call.signature.parameters.map ValueType.kind →
      ∃ v l', arguments[i]? = some v ∧ Locals.Agree m.localsInUse l l' ∧
        Yields (S.passed cx.handler modified parameter result v)
          (fun v' => v'.kind = modified.kind) ∧
        S.ComesTo u.method.code start stop start ⟨stacked (receiver ++ arguments) ++ stack, l⟩
          (S.passed cx.handler modified parameter result v)
          fun v' w => .at stop w ⟨stacked (receiver ++ arguments.set i v') ++ stack, l'⟩

/-- The code planned for a call does what is said of it where it has been put. -/
theorem changesOnly_of_editAt (S : Surroundings Ref) {es : List Edit} {first : Nat → Nat}
    {u : Draft} {site : CallSite} {edit : Edit} {kind : InvokeKind}
    (hlaid : Weaver.Laid m es first u) (hfilter : cx.handler.filter? = some (parameter, result))
    (hcall : m.code[site.anchor.index]? = some (.invoke kind site.call)) (hmem : edit ∈ es)
    (hedit : (editAt cx m index parameter result supply site).result = .ok (edit, left))
    (hlow : m.localsInUse ≤ supply.slots.next) :
    ChangesOnly S cx m u index parameter result site := by
  obtain ⟨i, modified, code, hindex, hmodified, hcode, rfl⟩ := editAt_eq_ok hedit
  have hmeans := chooseIndex_eq_ok.1 hindex
  obtain ⟨start, rest, hbeside, hdrop⟩ := hlaid.exists_beside .before hmem hcall
  refine ⟨kind, i, modified, start, _, hbeside, hmeans, hmodified,
    fun receiver arguments stack l hkinds => ?_⟩
  obtain ⟨below, v, above, rfl, rfl, hv, habove⟩ := exists_split hmodified hkinds
  obtain ⟨l', hagree, hexec⟩ := exec_codeFor (S := S) hfilter hcode hv habove (receiver ++ below)
    stack l
  rw [List.append_assoc] at hexec
  refine ⟨v, l', by simp, fun k hk => hagree k (hk.trans_le hlow),
    yields_of_codeFor hfilter hcode v, ?_⟩
  exact Surroundings.comesTo_plain hdrop (codeFor_eq_ok hfilter hcode).1.isPlain hexec
    fun v' _ => by simp

/-- Where the directive is applied, every call that was found is handed the argument that is meant
as the handler makes it, and all else as it was. Where no argument of some call is meant, it is not
applied: planning ends there with that, if it has not ended at a call before. -/
theorem changes_one_argument (S : Surroundings Ref) {point : InjectionPoint}
    (haction : cx.directive.action = .modifyArgument point index) :
    (∀ n u, (Weaver.weaveMethod cx).Done (Draft.ofMethod m) n u →
      ∃ sites parameter result, CallSite.locate (Draft.ofMethod m) point = .ok sites ∧
        sites.length = n ∧ cx.handler.filter? = some (parameter, result) ∧
        ∀ site ∈ sites, ChangesOnly S cx m u index parameter result site) ∧
    ∀ parameter result before site after,
      CallSite.locate (Draft.ofMethod m) point = .ok (before ++ site :: after) →
      cx.handler.filter? = some (parameter, result) →
      (∀ i, ¬ Means site.call parameter index i) →
      ∃ e, Ends cx m e ∧ (e = .typeMismatch (refusal site.call index) ∨
        (Plan.editSites (editAt cx m index parameter result) (Supply.ofMethod m) before).result =
          .error e ∧ ((∃ fault, e = .typeMismatch fault) ∨ e = .tooManyLocals)) := by
  have hplan : Weaver.plan cx (Draft.ofMethod m) = plan cx (Draft.ofMethod m) point index := by
    rw [Weaver.plan, haction]
  refine ⟨fun n u h => ?_, fun parameter result before site after hsites hfilter hrefused => ?_⟩
  · obtain ⟨es, slots, first, hes, hlength, hlaid⟩ :=
      Weaver.exists_laid_of_done (fun _ hp => ready_of_plan (hplan ▸ hp)) h
    rw [hplan] at hes
    obtain ⟨sites, parameter, result, hsites, hfilter, hes⟩ := plan_eq_ok hes
    obtain ⟨hcount, hplanned, -⟩ := Plan.planned_of_ofSites (fun _ _ _ _ => next_le_of_editAt) hes
    refine ⟨sites, parameter, result, hsites, hcount.symm.trans hlength, hfilter,
      fun site hsite => ?_⟩
    obtain ⟨edit, hmem, supply, left, hedit, hlow⟩ := hplanned site hsite
    obtain ⟨kind, hnames⟩ := (CallSite.located_of_locate hsites).2 site hsite
    exact changesOnly_of_editAt S hlaid hfilter (CodeStream.getElem?_of_names_ofList hnames) hmem
      hedit hlow
  · obtain ⟨e, he, hcause⟩ :=
      editSites_of_refused cx m result (Supply.ofMethod m) before after hrefused
    refine ⟨e, ends_of_failed (Weaver.failed_weaveMethod.2 (.inl ⟨?_, rfl⟩)) ?_, hcause⟩
    · have htypes : cx.filterTypes .argument = .ok (parameter, result) := by
        rw [Context.filterTypes, hfilter]
      rw [hplan]
      simp only [plan, Plan.ofSites, Traced.bind_eq_error, Traced.result_ofExcept]
      exact .inr ⟨_, hsites, .inr ⟨_, htypes, .inl he⟩⟩
    · rintro sought rfl
      rcases hcause with h | ⟨-, ⟨fault, h⟩ | h⟩ <;> cases h

def argumentContext (index : Option UInt64) : Context where
  settings := .standard
  cls := .object
  directive := ⟨.object, ⟨.set, none⟩, wideningHandler.reference, 0, false,
    .modifyArgument Redirect.callPoint index⟩
  handler := wideningHandler

def narrowWideCall : MethodRef := ⟨.number, .get, ⟨[.int, .base .long], some .int⟩⟩

theorem callingMethod_argument_changed : ∃ u start stop l,
    (Weaver.weaveMethod (argumentContext (some 0))).Done
      (Draft.ofMethod Redirect.callingMethod) 1 u ∧
    Weaver.Beside Redirect.callingMethod u .before 3 (.invoke .virtual narrowWideCall) start stop ∧
    (∀ (w : Nat) y, (Surroundings.scripted Redirect.unboxingScript).Leaves u.method.code start stop
        (.at start w ⟨stacked [.reference none, .int 7, .long 5], fun _ => none⟩) y ↔
      y = .at stop (w + 1 : Nat) ⟨stacked [.reference none, .int 42, .long 5], l⟩) ∧
    Ends (argumentContext (some 2)) Redirect.callingMethod
      (.typeMismatch (.noArgument narrowWideCall 2)) := by
  have hdone : (Weaver.weaveMethod (argumentContext (some 0))).Done
      (Draft.ofMethod Redirect.callingMethod) 1 _ := ⟨by decide +kernel, rfl⟩
  have hlocated : CallSite.locate (Draft.ofMethod Redirect.callingMethod) Redirect.callPoint =
      .ok [⟨⟨0, 3⟩, narrowWideCall⟩] := rfl
  have haction (index : Option UInt64) : (argumentContext index).directive.action =
      .modifyArgument Redirect.callPoint index := rfl
  obtain ⟨hchanged, -⟩ := changes_one_argument (m := Redirect.callingMethod)
    (.scripted Redirect.unboxingScript) (haction (some 0))
  obtain ⟨sites, parameter, result, hsites, -, hfilter, hall⟩ := hchanged _ _ hdone
  cases hlocated.symm.trans hsites
  cases hfilter
  obtain ⟨kind, i, modified, start, stop, hbeside, ⟨rfl, -⟩, hmodified, heffect⟩ :=
    hall _ List.mem_cons_self
  cases hbeside.old
  cases hmodified
  obtain ⟨v, l, hv, -, -, hleaves⟩ :=
    heffect [.reference none] [.int 7, .long 5] [] (fun _ => none) rfl
  cases hv
  have hpassed (w : Nat) : (Surroundings.scripted Redirect.unboxingScript).passed wideningHandler
      .int (.base .long) (.object .object) (.int 7) w = some (.int 42, (w + 1 : Nat)) := rfl
  obtain ⟨-, hrefused⟩ := changes_one_argument (m := Redirect.callingMethod)
    (.scripted Redirect.unboxingScript) (haction (some 2))
  obtain ⟨e, hends, hcause⟩ := hrefused (.base .long) (.object .object) [] _ [] hlocated rfl
    fun i hi => absurd (hi.1 ▸ hi.2) (by decide)
  obtain rfl | ⟨hnone, -⟩ := hcause
  · exact ⟨_, start, stop, l, hdone, hbeside, fun w y => hleaves.leaves_iff (hpassed w), hends⟩
  · cases hnone

/-- Two calls, an argument above another only in the first, and no slot to put it into. -/
def crowdedMethod : Method where
  name := .set
  signature := ⟨[], none⟩
  flags := Flags.ofBits _ staticFlag
  maxStack := 2
  maxLocals := 65535
  code := [.pushConstant (.int 1), .pushConstant (.int 2),
    .invoke .static ⟨.number, .get, ⟨[.int, .int], none⟩⟩,
    .invoke .static ⟨.number, .get, ⟨[], none⟩⟩, .ret none]

def crowdedPoint : InjectionPoint := ⟨.calls (.permissive "get") (-1), 0, .before⟩

def plainHandler : Handler where
  reference := ⟨.number, .valueOf, ⟨[.int], some .int⟩⟩
  body := ⟨.valueOf, ⟨[.int], some .int⟩, Flags.ofBits _ staticFlag, 1, 1,
    [.loadLocal 0 .int, .ret (some .int)]⟩

def crowdedDirective : Directive :=
  ⟨.object, ⟨.set, none⟩, plainHandler.reference, 0, false, .modifyArgument crowdedPoint (some 0)⟩

/-- The second call has no argument that could be meant, but the first has used up the slots. -/
theorem crowdedMethod_out_of_slots :
    plainHandler.filter? = some (.int, .int) ∧
    (∃ first second, CallSite.locate (Draft.ofMethod crowdedMethod) crowdedPoint =
      .ok [first, second] ∧ ∀ i, ¬ Means second.call .int (some 0) i) ∧
    (Weaver.weave .standard
        (fun reference =>
          if reference = plainHandler.reference then some plainHandler.body else none)
        { ClassDefinition.ofName .object with methods := [crowdedMethod] }
        [crowdedDirective]).outcomes =
      [⟨0, crowdedDirective, [], 0, .failed .tooManyLocals⟩] := by
  refine ⟨rfl, ⟨⟨⟨0, 2⟩, _⟩, ⟨⟨0, 3⟩, _⟩, rfl, ?_⟩, by decide +kernel⟩
  exact fun i hi => absurd hi.2 (Nat.not_lt_zero i)

end ModifyArgument

end CodeWeaving
