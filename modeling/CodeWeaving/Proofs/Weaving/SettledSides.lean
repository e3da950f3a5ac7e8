import CodeWeaving.Proofs.Weaving.Points
import CodeWeaving.Proofs.Weaving.Sides

/-! Settled sides: directives that differ only in a side that does not count, written for calls at
the start of a method or at its returns, weave the same. -/
namespace CodeWeaving

/-- The action, written with the side on which its calls go in. -/
def Action.settled : Action → Action
  | .inject point cancellable =>
    .inject (point.withPlacement (Inject.placement point)) cancellable
  | action => action

def Directive.settled (d : Directive) : Directive := { d with action := d.action.settled }

def Context.settled (cx : Context) : Context := { cx with directive := cx.directive.settled }

/-- The outcome, with its directive so written. -/
def Outcome.settled (o : Outcome) : Outcome := { o with directive := o.directive.settled }

theorem Plan.result_editSites_congr {α : Type} {edit edit' : Supply → α → Traced (Edit × Supply)}
    (h : ∀ supply a, (edit supply a).result = (edit' supply a).result) (supply : Supply)
    (sites : List α) :
    (editSites edit supply sites).result = (editSites edit' supply sites).result := by
  induction sites generalizing supply with
  | nil => rfl
  | cons a sites ih => simp only [editSites, Traced.result_bind, h, ih]

namespace Inject

variable {point : InjectionPoint}

theorem placement_of_ends (h : point.selector = .head ∨ point.selector = .returns) :
    placement point = .before := by
  unfold placement
  rcases h with h | h <;> rw [h]

theorem placement_settled (point : InjectionPoint) :
    placement (point.withPlacement (placement point)) = placement point := by
  obtain ⟨selector, shift, written⟩ := point
  cases selector <;> rfl

theorem result_plan_settled (cx : Context) (d : Draft) (point : InjectionPoint)
    (cancellable : Bool) :
    (plan cx.settled d (point.withPlacement (placement point)) cancellable).result =
      (plan cx d point cancellable).result := by
  have hedit (params : List Supplied) (supply : Supply) (site : Site) :
      (editAt cx.settled d.method (point.withPlacement (placement point)) cancellable params supply
        site).result = (editAt cx d.method point cancellable params supply site).result := by
    unfold editAt
    rw [placement_settled]
    split <;> rfl
  have hsites (params : List Supplied) (sites : List Site) :
      (Plan.ofSites d.method sites (editAt cx.settled d.method
        (point.withPlacement (placement point)) cancellable params)).result =
      (Plan.ofSites d.method sites (editAt cx d.method point cancellable params)).result := by
    simp only [Plan.ofSites, Traced.result_bind, Plan.result_editSites_congr (hedit params)]
  simp only [plan, Traced.result_bind, Traced.result_guarded, Context.note, Traced.result_noting,
    Traced.result_noteOverflow, hsites]
  rfl

end Inject

namespace Weaver

variable {settings : Settings} {handlers : HandlerProvider} {c : ClassDefinition}
  {ds ds' : List Directive} {progress : Progress} {name : ClassName} {ms : List Method}
  {m : Method} {index : Nat}

theorem result_plan_settled (cx : Context) (d : Draft) :
    (plan cx.settled d).result = (plan cx d).result := by
  obtain ⟨settings, cls, ⟨owner, target, reference, priority, required, action⟩, handler⟩ := cx
  cases action with
  | inject point cancellable => exact Inject.result_plan_settled _ d point cancellable
  | _ => rfl

theorem weaveMethod_settled (cx : Context) (d : Draft) :
    (weaveMethod cx.settled).result d = (weaveMethod cx).result d ∧
      (weaveMethod cx.settled).left d = (weaveMethod cx).left d := by
  have hdone (n : Nat) (u : Draft) :
      (weaveMethod cx.settled).Done d n u ↔ (weaveMethod cx).Done d n u := by
    rw [done_weaveMethod, done_weaveMethod, result_plan_settled]
    exact .rfl
  have hfailed (e : WeaveError) (u : Draft) :
      (weaveMethod cx.settled).Failed d e u ↔ (weaveMethod cx).Failed d e u := by
    rw [failed_weaveMethod, failed_weaveMethod, result_plan_settled]
    exact .rfl
  rcases InPlace.done_or_failed (weaveMethod cx) d with ⟨n, h⟩ | ⟨e, h⟩
  · obtain ⟨hresult, hleft⟩ := (hdone n _).2 h
    exact ⟨hresult.trans h.1.symm, hleft⟩
  · obtain ⟨hresult, hleft⟩ := (hfailed e _).2 h
    exact ⟨hresult.trans h.1.symm, hleft⟩

theorem wovenMethod_settled (cx : Context) (m : Method) :
    wovenMethod cx.settled m = wovenMethod cx m := by
  rw [wovenMethod, (weaveMethod_settled cx _).1, (weaveMethod_settled cx _).2, wovenMethod]

theorem tally_settled (cx : Context) (progress : Progress) (ms : List Method) :
    tally cx.settled progress ms = tally cx progress ms := by
  induction ms generalizing progress with
  | nil => rfl
  | cons m ms ih =>
    rw [tally, (weaveMethod_settled cx _).1, tally]
    simp only [ih]

theorem verdict_settled (d : Directive) :
    verdict settings handlers d.settled name ms = verdict settings handlers d name ms := by
  have htally (body : Method) :
      tally ⟨settings, name, d.settled, ⟨d.settled.handler, body⟩⟩ Progress.start ms =
        tally ⟨settings, name, d, ⟨d.handler, body⟩⟩ Progress.start ms :=
    tally_settled (contextOf settings name d body) Progress.start ms
  simp only [verdict, htally]
  rfl

theorem rework_settled (d : Directive) :
    rework settings handlers d.settled name ms m = rework settings handlers d name ms m := by
  have hwoven (body : Method) :
      wovenMethod ⟨settings, name, d.settled, ⟨d.settled.handler, body⟩⟩ m =
        wovenMethod ⟨settings, name, d, ⟨d.handler, body⟩⟩ m :=
    wovenMethod_settled (contextOf settings name d body) m
  simp only [rework, hwoven, verdict_settled]
  rfl

theorem weaveOne_settled (d : Directive) :
    (weaveOne settings handlers c index d.settled).1 = (weaveOne settings handlers c index d).1 ∧
      (weaveOne settings handlers c index d.settled).2.1 =
        (weaveOne settings handlers c index d).2.1.settled := by
  have hown : own d.settled c = own d c := rfl
  have hrework : rework settings handlers d.settled c.name (own d c) =
      rework settings handlers d c.name (own d c) := funext fun m => rework_settled d
  rw [weaveOne_eq.1, weaveOne_eq.1, weaveOne_eq.2, weaveOne_eq.2, hown, hrework, verdict_settled]
  refine ⟨rfl, ?_⟩
  cases verdict settings handlers d c.name (own d c) <;> rfl

theorem weaveInOrder_settled (l : List (Directive × Nat)) :
    (weaveInOrder settings handlers c (l.map (Prod.map Directive.settled id))).cls =
        (weaveInOrder settings handlers c l).cls ∧
      (weaveInOrder settings handlers c (l.map (Prod.map Directive.settled id))).outcomes =
        (weaveInOrder settings handlers c l).outcomes.map Outcome.settled := by
  induction l generalizing c with
  | nil => exact ⟨rfl, rfl⟩
  | cons x l ih =>
    obtain ⟨d, index⟩ := x
    obtain ⟨hcls, houtcome⟩ := @weaveOne_settled settings handlers c index d
    rw [List.map_cons, Prod.map_apply, id_eq, cls_weaveInOrder_cons, cls_weaveInOrder_cons,
      outcomes_weaveInOrder_cons, outcomes_weaveInOrder_cons, List.map_cons, hcls, houtcome, ih.1,
      ih.2]
    exact ⟨rfl, rfl⟩

theorem weavingOrder_settled :
    weavingOrder (ds.map Directive.settled) =
      (weavingOrder ds).map (Prod.map Directive.settled id) := by
  rw [weavingOrder, List.zipIdx_map, inWeavingOrder_map]
  rfl

theorem weave_settled :
    (weave settings handlers c (ds.map Directive.settled)).cls =
        (weave settings handlers c ds).cls ∧
      (weave settings handlers c (ds.map Directive.settled)).outcomes =
        (weave settings handlers c ds).outcomes.map Outcome.settled := by
  cases hc : c.woven with
  | true =>
    rw [weave, if_pos hc, weave, if_pos hc, List.zipIdx_map, List.map_map, List.map_map]
    exact ⟨rfl, rfl⟩
  | false =>
    obtain ⟨hcls, houtcomes⟩ := @weaveInOrder_settled settings handlers c (weavingOrder ds)
    rw [(weave_of_unwoven hc).1, (weave_of_unwoven hc).1, (weave_of_unwoven hc).2,
      (weave_of_unwoven hc).2, weavingOrder_settled, hcls, houtcomes]
    exact ⟨rfl, rfl⟩

/-- Directives that settle on the same weave the same. -/
theorem weave_congr_settled (h : ds.map Directive.settled = ds'.map Directive.settled) :
    (weave settings handlers c ds).cls = (weave settings handlers c ds').cls ∧
      (weave settings handlers c ds).outcomes.map Outcome.settled =
        (weave settings handlers c ds').outcomes.map Outcome.settled := by
  obtain ⟨hcls, houtcomes⟩ := @weave_settled settings handlers c ds
  obtain ⟨hcls', houtcomes'⟩ := @weave_settled settings handlers c ds'
  exact ⟨hcls.symm.trans (h ▸ hcls'), houtcomes.symm.trans (h ▸ houtcomes')⟩

/-- For a point at the start or at returns the written side of injected calls settles nothing. -/
theorem settled_withPlacement {point : InjectionPoint} (d : Directive) (cancellable : Bool)
    (hends : point.selector = .head ∨ point.selector = .returns) (side side' : Placement) :
    ({ d with action := .inject (point.withPlacement side) cancellable } : Directive).settled =
      ({ d with
          action := .inject (point.withPlacement side') cancellable } : Directive).settled := by
  have hside (side : Placement) : Inject.placement (point.withPlacement side) = .before :=
    Inject.placement_of_ends hends
  simp only [Directive.settled, Action.settled, hside]
  rfl

/-- At the start and at returns calls are injected right before the instructions at the places of
the point, and what side is written for them changes neither the class nor an outcome, but for the
directive that this one shows. Filters of a slot go there on the side that is written, and not after
a return. -/
theorem sides_at_ends {point : InjectionPoint}
    (hends : point.selector = .head ∨ point.selector = .returns) :
    (∀ cx m cancellable n u, cx.directive.action = .inject point cancellable →
      (weaveMethod cx).Done (Draft.ofMethod m) n u →
      ∃ places, point.positions m.code = .ok places ∧ places.length = n ∧
        Code.CalledBeside cx.handler.call .before places m.code u.method.code) ∧
    (∀ settings handlers c before (d : Directive) cancellable after side side',
      let woven (side : Placement) := weave settings handlers c
        (before ++ { d with action := .inject (point.withPlacement side) cancellable } :: after)
      (woven side).cls = (woven side').cls ∧
        (woven side).outcomes.map Outcome.settled = (woven side').outcomes.map Outcome.settled) ∧
    ∀ cx m slot n u, cx.directive.action = .modifyVariable point slot →
      (weaveMethod cx).Done (Draft.ofMethod m) n u →
      ∃ places, point.positions m.code = .ok places ∧ places.length = n ∧
        Code.CalledBeside cx.handler.call point.placement places m.code u.method.code ∧
        (point.placement = .after → ∀ p ∈ places, ∀ kind, m.code[p]? ≠ some (.ret kind)) := by
  refine ⟨?_, ?_, ?_⟩
  · intro cx m cancellable n u haction h
    exact Inject.placement_of_ends hends ▸ Inject.calledBeside_of_done haction h
  · intro settings handlers c before d cancellable after side side' woven
    refine weave_congr_settled ?_
    rw [List.map_append, List.map_cons, settled_withPlacement d cancellable hends side side',
      List.map_append, List.map_cons]
  · intro cx m slot n u haction h
    refine ModifyVariable.calledBeside_of_done haction ?_ h
    rcases hends with hselector | hselector <;> rw [hselector] <;> rfl

/-- Overwrites its argument. -/
def storingMethod : Method where
  name := .valueOf
  signature := ⟨[.int], none⟩
  flags := Flags.ofBits _ staticFlag
  maxStack := 1
  maxLocals := 1
  code := [.pushConstant (.int 7), .storeLocal 0 .int, .ret none]

/-- Gives back what it takes. -/
def identityHandler : Handler where
  reference := ⟨.number, .get, ⟨[.int], some .int⟩⟩
  body := ⟨.get, ⟨[.int], some .int⟩, Flags.ofBits _ staticFlag, 1, 1,
    [.loadLocal 0 .int, .ret (some .int)]⟩

def sideDirective (action : Action) : Directive :=
  ⟨.object, ⟨.valueOf, none⟩, identityHandler.reference, 0, false, action⟩

def sideContext (action : Action) : Context :=
  ⟨.standard, .object, sideDirective action, identityHandler⟩

def sideProvider : HandlerProvider := fun reference =>
  if reference = identityHandler.reference then some identityHandler.body else none

def storingClass : ClassDefinition :=
  { ClassDefinition.ofName .object with methods := [storingMethod] }

/-- At the start, or a number of instructions on, and after what is there. -/
def afterHead (shift : Int32) : InjectionPoint := ⟨.head, shift, .after⟩

theorem storingMethod_sides :
    (∃ u, (weaveMethod (sideContext (.inject (afterHead 1) false))).Done
        (Draft.ofMethod storingMethod) 1 u ∧
      Code.CalledBeside identityHandler.call .before [1] storingMethod.code u.method.code) ∧
    (weave .standard sideProvider storingClass [sideDirective (.inject (afterHead 1) false)]).cls =
      (weave .standard sideProvider storingClass
        [sideDirective (.inject ((afterHead 1).withPlacement .before) false)]).cls ∧
    ∃ u, (weaveMethod (sideContext (.modifyVariable (afterHead 0) (some 0)))).Done
        (Draft.ofMethod storingMethod) 1 u ∧
      Code.CalledBeside identityHandler.call .after [0] storingMethod.code u.method.code := by
  have hends (shift : Int32) : (afterHead shift).selector = .head ∨
      (afterHead shift).selector = .returns := .inl rfl
  obtain ⟨hinject, hweave, -⟩ := sides_at_ends (hends 1)
  refine ⟨?_, ?_, ?_⟩
  · have hdone : (weaveMethod (sideContext (.inject (afterHead 1) false))).Done
        (Draft.ofMethod storingMethod) 1 _ := ⟨by decide +kernel, rfl⟩
    obtain ⟨places, hplaces, -, hbeside⟩ := hinject _ _ _ _ _ rfl hdone
    have hone : (afterHead 1).positions storingMethod.code = .ok [1] := by decide +kernel
    cases hplaces.symm.trans hone
    exact ⟨_, hdone, hbeside⟩
  · exact (hweave .standard sideProvider storingClass [] (sideDirective .overwrite) false []
      .after .before).1
  · have hdone : (weaveMethod (sideContext (.modifyVariable (afterHead 0) (some 0)))).Done
        (Draft.ofMethod storingMethod) 1 _ := ⟨by decide +kernel, rfl⟩
    obtain ⟨places, hplaces, -, hbeside, -⟩ :=
      (sides_at_ends (hends 0)).2.2 _ _ _ _ _ rfl hdone
    have hzero : (afterHead 0).positions storingMethod.code = .ok [0] := by decide +kernel
    cases hplaces.symm.trans hzero
    exact ⟨_, hdone, hbeside⟩

/-- A filter of a slot at the start goes after the first instruction if that is what is written. -/
theorem not_always_before :
    (¬ ∀ cx m point slot n u, cx.directive.action = .modifyVariable point slot →
      point.selector = .head ∨ point.selector = .returns →
      (weaveMethod cx).Done (Draft.ofMethod m) n u →
      ∃ places, point.positions m.code = .ok places ∧
        Code.CalledBeside cx.handler.call .before places m.code u.method.code) ∧
    ¬ ∀ settings handlers c d point slot, d.action = .modifyVariable point slot →
      point.selector = .head ∨ point.selector = .returns →
      (weave settings handlers c [d]).cls = (weave settings handlers c
        [{ d with action := .modifyVariable (point.withPlacement .before) slot }]).cls := by
  refine ⟨fun h => ?_, fun h => ?_⟩
  · have hdone : (weaveMethod (sideContext (.modifyVariable (afterHead 0) (some 0)))).Done
        (Draft.ofMethod storingMethod) 1 _ := ⟨by decide +kernel, rfl⟩
    obtain ⟨places, hplaces, new, -, hnone, hcode⟩ := h _ _ _ _ _ _ rfl (.inl rfl) hdone
    have hzero : (afterHead 0).positions storingMethod.code = .ok [0] := by decide +kernel
    cases hplaces.symm.trans hzero
    have hwoven : ((weaveMethod (sideContext (.modifyVariable (afterHead 0) (some 0)))).left
        (Draft.ofMethod storingMethod)).method.code =
          [.pushConstant (.int 7), .loadLocal 0 .int, identityHandler.call] ++
            [.storeLocal 0 .int, .storeLocal 0 .int, .ret none] := by
      decide +kernel
    have hflanked : storingMethod.code.flanked .before new = new 0 ++ storingMethod.code := by
      simp [Code.flanked, Code.numbered, Instruction.flanked, storingMethod, hnone 1, hnone 2]
    rw [hwoven, hflanked] at hcode
    cases (List.append_inj' hcode rfl).2
  · have hsame := congrArg (fun c => c.methods.map Method.code) (h .standard sideProvider
      storingClass (sideDirective (.modifyVariable (afterHead 0) (some 0))) _ _ rfl (.inl rfl))
    exact absurd hsame (by decide +kernel)

end Weaver

end CodeWeaving
