import CodeWeaving.Proofs.Machine.Unnoticed
import CodeWeaving.Proofs.Machine.ViewMemory

/-! Calls whose arguments pass through a view: with a handler that leaves the view alone, nobody
notices. -/
namespace CodeWeaving.ModifyArguments

open Code Machine

variable {Ref : Type} {S T : Surroundings Ref} {M : ViewModel T} {cx : Context} {m : Method}
  {supply left : Supply} {types : List ValueType} {code : Code} {e : Edit} {f g : Frame Ref}
  {call : MethodRef} {kind : InvokeKind} {a : Act Ref}

/-- The values on top of the stack are of the types, if they are of their kinds. -/
def ArgumentsTyped (M : ViewModel T) (types : List ValueType) (stack : List (Slot Ref)) : Prop :=
  ∀ values rest, stack = stacked values ++ rest →
    values.map Value.kind = types.map ValueType.kind → ∀ p ∈ types.zip values, M.Typed p.2 p.1

/-- A call has its arguments on top of the stack, above a receiver. -/
theorem exists_arguments (h : begin (.invoke kind call) f = some a) :
    ∃ values rest, f.stack = stacked values ++ rest ∧
      values.map Value.kind = call.signature.parameters.map ValueType.kind := by
  obtain ⟨operands, rest, hkinds, hstack, -⟩ := Surroundings.begin_invoke_eq_some.1 h
  obtain ⟨receiver, values, rfl, -, hvalues⟩ := List.map_eq_append_iff.1 hkinds
  rw [stacked_append, List.append_assoc] at hstack
  exact ⟨values, _, hstack, hvalues⟩

theorem next_le_of_editAt {site : CallSite}
    (h : (editAt cx m supply site).result = .ok (e, left)) :
    supply.slots.next ≤ left.slots.next := by
  obtain ⟨code, h, -⟩ := editAt_eq_ok h
  simp only [codeFor, bind_eq_ok] at h
  obtain ⟨⟨slots, between⟩, hslots, ⟨viewSlot, left⟩, hslot, _, -, _, -, h⟩ := h
  cases h
  have hview : left.slots.next = between.slots.next + _ := (Supply.slot_eq_ok hslot).2
  rw [hview]
  exact (Supply.within_of_slotsFor hslots).le.trans (Nat.le_add_right _ _)

/-- The arguments of a call go through the view and nothing else has changed after it. -/
theorem quiet_codeFor (hM : M.Lawful cx.settings.argumentView) (hhandler : M.LeavesViews cx.handler)
    (hparameters : cx.handler.parameters = [.object cx.settings.argumentView])
    (hcode : codeFor cx call.signature.parameters supply = .ok (code, left))
    (hbegin : begin (.invoke kind call) f = some a)
    (htyped : ArgumentsTyped M call.signature.parameters f.stack)
    {low : Nat} (hlow : low ≤ supply.slots.next) (hg : f.Same low g) (v : T.World) :
    ∃ v' g', T.exec code g v = some (g', v') ∧ f.Same low g' := by
  obtain ⟨values, rest, hstack, hkinds⟩ := exists_arguments hbegin
  obtain ⟨l, v', hexec, hagree⟩ := exec_codeFor rest g.locals hM hhandler hparameters hcode
    hkinds (htyped values rest hstack hkinds) v
  rw [← hstack, ← hg.stack] at hexec
  exact ⟨v', _, hexec, hg.stack, hg.locals.trans fun k hk => hagree k (hk.trans_le hlow)⟩

/-- The arguments are of their types wherever a frame is at one of the calls. -/
def TypedAtCalls (M : ViewModel T) (sites : List CallSite) (p : Nat) (f : Frame Ref) : Prop :=
  ∀ site ∈ sites, p = site.anchor.index → ArgumentsTyped M site.call.signature.parameters f.stack

/-- No call notices what is planned before it. -/
theorem unnoticed_of_planned {low : Nat} {site : CallSite} {sites : List CallSite}
    (hM : M.Lawful cx.settings.argumentView) (hhandler : M.LeavesViews cx.handler)
    (hparameters : cx.handler.parameters = [.object cx.settings.argumentView])
    (hsite : site ∈ sites) (hi : code[site.anchor.index]? = some (.invoke kind site.call))
    (he : Plan.PlannedAbove (editAt cx m) low site e) :
    e.Unnoticed T low (TypedAtCalls M sites) code := by
  obtain ⟨supply, left, hedit, hlow⟩ := he
  obtain ⟨new, hnew, rfl⟩ := editAt_eq_ok hedit
  constructor
  case before => exact ⟨_, _, rfl⟩
  case plain => exact (codeFor_eq_ok hparameters hnew).1.isPlain
  case label =>
    intro l hl
    cases hi.symm.trans hl
  case quiet =>
    intro i f a hi' hbegin hP v g hg
    cases hi.symm.trans hi'
    exact quiet_codeFor hM hhandler hparameters hnew hbegin (hP site hsite rfl) hlow hg v

/-- The method with the views runs as the method without them: its own instructions find the same
stack and the same locals and ask for the same, the calls at the sites among them. -/
theorem round_trip (S T : Surroundings Ref) (M : ViewModel T) {point : InjectionPoint} {n : Nat}
    {u : Draft} (haction : cx.directive.action = .modifyArguments point)
    (h : (Weaver.weaveMethod cx).Done (Draft.ofMethod m) n u)
    (hM : M.Lawful cx.settings.argumentView) (hhandler : M.LeavesViews cx.handler) :
    ∃ sites, CallSite.locate (Draft.ofMethod m) point = .ok sites ∧ sites.length = n ∧
      ∀ w v l visits, Run S T m.code.length (m.code.numbered 0) 0 w v ⟨[], l⟩ visits →
        (∀ x ∈ visits, TypedAtCalls M sites x.entry.1 x.frame) →
        ∃ visits', Run S T m.code.length u.stream.entries 0 w v ⟨[], l⟩ visits' ∧
          List.Forall₂ (Visit.Same m.localsInUse) visits (ownVisits m.code.length visits') := by
  have hplan : Weaver.plan cx (Draft.ofMethod m) = plan cx (Draft.ofMethod m) point := by
    rw [Weaver.plan, haction]
  obtain ⟨es, slots, first, hes, hlength, hlaid⟩ :=
    Weaver.exists_laid_of_done (fun _ hp => ready_of_plan (hplan ▸ hp)) h
  rw [hplan] at hes
  simp only [plan, Traced.bind_eq_ok, Traced.result_ofExcept, Traced.unless_fail_eq_ok] at hes
  obtain ⟨hparameters, sites, hsites, hes⟩ := hes
  obtain ⟨hcount, -, hplanned⟩ := Plan.planned_of_ofSites (fun _ _ _ _ => next_le_of_editAt) hes
  refine ⟨sites, hsites, hcount.symm.trans hlength, fun w v l visits hrun htyped => ?_⟩
  have hunnoticed (e : Edit) (he : e ∈ es) :
      e.Unnoticed T m.localsInUse (TypedAtCalls M sites) m.code := by
    obtain ⟨site, hsite, hsiteEdit⟩ := hplanned e he
    obtain ⟨kind, hnames⟩ := (CallSite.located_of_locate hsites).2 site hsite
    exact unnoticed_of_planned hM hhandler (not_not.1 hparameters) hsite
      (CodeStream.getElem?_of_names_ofList hnames) hsiteEdit
  have hplaced : (Code.placed ((Plan.layout es first 0 m.code).map Prod.snd)).Nodup := by
    rw [← hlaid.entries, ← CodeStream.instructions, u.agrees]
    exact hlaid.labels
  have hneeded (i : Instruction) (hi : i ∈ m.code) : i.localsNeeded ≤ m.localsInUse :=
    (localsNeeded_of_mem hi).trans (Nat.le_max_right _ _)
  rw [hlaid.entries]
  exact Plan.exists_run_unnoticed hunnoticed hlaid.first hplaced hneeded hrun htyped .refl

/-- Passes a narrow, a wide and a reference argument on. -/
def passingMethod : Method where
  name := .set
  signature := ⟨[], none⟩
  flags := Flags.ofBits _ staticFlag
  maxStack := 4
  maxLocals := 0
  code := [.pushConstant (.int 7), .pushConstant (.long 5), .pushConstant .null,
    .invoke .static ⟨.number, .valueOf, ⟨[.int, .base .long, .object .object], none⟩⟩, .ret none]

def viewHandler : Handler where
  reference := ⟨.number, .isCancelled, ⟨[.object Settings.standard.argumentView], none⟩⟩
  body := ⟨.isCancelled, ⟨[.object Settings.standard.argumentView], none⟩,
    Flags.ofBits _ staticFlag, 0, 1, [.ret none]⟩

def viewContext : Context where
  settings := .standard
  cls := .object
  directive := ⟨.object, ⟨.set, none⟩, viewHandler.reference, 0, false,
    .modifyArguments ⟨.calls (.permissive "valueOf") 0, 0, .before⟩⟩
  handler := viewHandler

/-- In a memory of views any values of the right kinds will do. -/
theorem argumentsTyped_memory (stack : List (Slot Nat)) :
    ArgumentsTyped Memory.model types stack := by
  intro values rest _ hkinds p hp
  obtain ⟨n, hn⟩ := List.mem_iff_getElem?.1 hp
  obtain ⟨htype, hvalue⟩ := List.getElem?_zip_eq_some.1 hn
  have hkind : p.2.kind = p.1.kind := by
    have := congrArg (fun kinds => kinds[n]?) hkinds
    simpa [htype, hvalue] using this
  exact ⟨hkind, fun r hr => by rw [hr] at hkind; exact hkind⟩

theorem passingMethod_round_trip : ∃ u visits visits',
    (Weaver.weaveMethod viewContext).Done (Draft.ofMethod passingMethod) 1 u ∧
      Run (.scripted fun _ => .int 0) Memory.surroundings 5 (passingMethod.code.numbered 0) 0
        (0 : Nat) ([] : Memory) ⟨[], fun _ => none⟩ visits ∧ visits.length = 5 ∧
      Run (.scripted fun _ => .int 0) Memory.surroundings 5 u.stream.entries 0
        (0 : Nat) ([] : Memory) ⟨[], fun _ => none⟩ visits' ∧
      List.Forall₂ (Visit.Same 0) visits (ownVisits 5 visits') := by
  have hdone : (Weaver.weaveMethod viewContext).Done (Draft.ofMethod passingMethod) 1 _ :=
    ⟨by decide +kernel, rfl⟩
  have hhandler : Memory.model.LeavesViews viewContext.handler :=
    Memory.leavesViews (by decide) rfl (by decide)
  obtain ⟨sites, -, -, hall⟩ := round_trip (.scripted fun _ => .int 0) _ Memory.model rfl hdone
    (Memory.lawful _) hhandler
  have hrun : Run (.scripted fun _ => .int 0) Memory.surroundings 5
      (passingMethod.code.numbered 0) 0 (0 : Nat) ([] : Memory) ⟨[], fun _ => none⟩ _ :=
    .own rfl (by decide) rfl (.own rfl (by decide) rfl (.own rfl (by decide) rfl
      (.own rfl (by decide) rfl (.stop rfl rfl))))
  obtain ⟨visits', hrun', hsame⟩ := hall _ _ _ _ hrun fun _ _ _ _ _ => argumentsTyped_memory _
  exact ⟨_, _, visits', hdone, hrun, rfl, hrun', hsame⟩

end CodeWeaving.ModifyArguments
