import CodeWeaving.Proofs.Weaving.Accounting

/-! Copied bodies: their labels are always checked, their depths if those of the body they take the
place of were in order. -/
namespace CodeWeaving

/-- Labels are in place, and depths are in order with the greatest for a bound. -/
def Method.Verified (m : Method) : Prop :=
  (∃ labels, m.code.checkLabels = .ok labels) ∧
    ∃ s, m.code.simulate = .ok s ∧ m.maxStack.toNat = s.maxStack

namespace Weaver

variable {settings : Settings} {handlers : HandlerProvider} {c : ClassDefinition}
  {ds : List Directive} {o : Outcome} {cx : Context} {d u v : Draft} {m before body : Method}
  {n k i : Nat}

theorem simulate_of_tighten (h : tighten d = .ok u) : ∃ s, d.method.code.simulate = .ok s := by
  cases hs : d.method.code.simulate with
  | ok s => exact ⟨s, rfl⟩
  | error e =>
    have hmax : d.method.code.maxStack = .error e := by
      rw [Code.maxStack, hs]
      rfl
    rw [tighten, Method.withStackBound, hmax] at h
    cases h

theorem code_of_check (h : (check settings before).Done d ⟨⟩ v) :
    v.method.code = d.method.code ∧ ∃ labels, v.method.code.checkLabels = .ok labels := by
  obtain ⟨hlabels, w, htighten, hcover⟩ := done_check h
  obtain ⟨maxLocals, rfl, -⟩ := coverLocals_eq_ok hcover
  rcases htighten with rfl | htighten
  · exact ⟨rfl, hlabels⟩
  · obtain ⟨k, -, rfl⟩ := map_eq_ok.1 htighten
    exact ⟨rfl, hlabels⟩

/-- What is in order before is in order after, and its bound is exact. -/
theorem verified_of_check (hverify : settings.verifyAfterWeave = true)
    (hbefore : ∃ s, before.code.simulate = .ok s) (h : (check settings before).Done d ⟨⟩ v) :
    v.method.Verified := by
  obtain ⟨hlabels, -⟩ := done_check h
  obtain ⟨_, _, hdone, h⟩ := InPlace.done_bind.1 h
  obtain ⟨-, rfl⟩ := InPlace.done_require.1 hdone
  -- Whether depths are checked hangs on the code that was there, not on what took its place.
  have hsimulated : settings.verifyAfterWeave ∧ before.code.simulate.isOk = true := by
    obtain ⟨s, hs⟩ := hbefore
    exact ⟨hverify, by rw [hs]; rfl⟩
  rw [if_pos hsimulated] at h
  obtain ⟨_, u, htighten, hcover⟩ := InPlace.done_bind.1 h
  have htighten := InPlace.done_update.1 htighten
  obtain ⟨s, hs⟩ := simulate_of_tighten htighten
  obtain ⟨maxStack, rfl, hmax⟩ := tighten_eq_ok hs htighten
  obtain ⟨maxLocals, rfl, -⟩ := coverLocals_eq_ok (InPlace.done_update.1 hcover)
  exact ⟨hlabels, s, hs, hmax⟩

/-- What an overwriting directive makes of a method. -/
structure Copied (source target : ClassName) (body m m' : Method) : Prop where
  code : m'.code = body.code.map (Overwrite.retarget source target)
  labels : ∃ labels, m'.code.checkLabels = .ok labels
  verified : (∃ s, m.code.simulate = .ok s) → m'.Verified

/-- Whatever is checked afterwards, the code is the handler's. -/
theorem overwritten_of_weaveMethod (haction : cx.directive.action = .overwrite)
    (h : (weaveMethod cx).Done (Draft.ofMethod m) n v) :
    v.method.code =
        cx.handler.body.code.map (Overwrite.retarget cx.handler.reference.owner cx.cls) ∧
      ∃ edited, (check cx.settings m).Done edited ⟨⟩ v := by
  obtain ⟨p, edited, hplan, happly, hcheck⟩ := done_weaveMethod.1 h
  simp only [plan, haction] at hplan
  obtain ⟨-, rfl⟩ := Overwrite.plan_eq_ok hplan
  exact ⟨(code_of_check hcheck).1.trans (Plan.code_of_newBody happly).1, edited, hcheck⟩

theorem copied_of_weaveMethod (hverify : cx.settings.verifyAfterWeave = true)
    (haction : cx.directive.action = .overwrite)
    (h : (weaveMethod cx).Done (Draft.ofMethod m) n v) :
    Copied cx.handler.reference.owner cx.cls cx.handler.body m v.method := by
  obtain ⟨hcode, edited, hcheck⟩ := overwritten_of_weaveMethod haction h
  exact ⟨hcode, (code_of_check hcheck).2,
    fun hbefore => verified_of_check hverify hbefore hcheck⟩

theorem pointsIn_of_overwrite {d : Directive} (haction : d.action = .overwrite) :
    d.pointsIn settings m.code = 1 := by
  rw [Directive.pointsIn, Directive.places, haction]
  rfl

/-- An overwriting directive that applies gets through every method that it is for. -/
theorem done_of_applies {d : Directive} (haction : d.action = .overwrite)
    (happlies : Applies settings handlers d c) (hm : m ∈ own d c) :
    ∃ body n v, handlers d.handler = some body ∧
      (weaveMethod (contextOf settings c.name d body)).Done (Draft.ofMethod m) n v ∧
      rework settings handlers d c.name (own d c) m = v.method := by
  obtain ⟨progress, hverdict, -⟩ := verdict_of_applies happlies
  obtain ⟨-, body, hbody, hfaultless, -⟩ := happlies
  have hone : d.pointsIn settings m.code = 1 := pointsIn_of_overwrite haction
  rcases result_of_not_faults (hfaultless m hm) with ⟨hresult, -⟩ | ⟨-, hzero⟩
  · refine ⟨body, _, _, hbody, ⟨hresult, rfl⟩, ?_⟩
    rw [rework, hverdict, hbody]
    dsimp only
    rw [if_pos (List.mem_filter.1 hm).2, wovenMethod, hresult]
  · cases hone.symm.trans hzero

theorem copied_of_applies {d : Directive} (hverify : settings.verifyAfterWeave = true)
    (haction : d.action = .overwrite) (happlies : Applies settings handlers d c)
    (hm : m ∈ own d c) : ∃ body, handlers d.handler = some body ∧
      Copied d.handler.owner c.name body m (rework settings handlers d c.name (own d c) m) := by
  obtain ⟨body, n, v, hbody, hdone, hrework⟩ := done_of_applies haction happlies hm
  rw [hrework]
  exact ⟨body, hbody,
    @copied_of_weaveMethod (contextOf settings c.name d body) _ _ _ hverify haction hdone⟩

/-- With checks on, a directive that overwrites lists each method it is for, and leaves it with its
handler's code, the labels of which are in place. Depths are in order and the stack bound is exact
if the depths of the method that was there were in order. -/
theorem copied_bodies_checked (hverify : settings.verifyAfterWeave = true)
    (ho : (weave settings handlers c ds).outcomes[k]? = some o) (happlied : o.status = .applied)
    (haction : o.directive.action = .overwrite) :
    o.methods = (own o.directive (classAt settings handlers c ds k)).map Method.identity ∧
    ∀ (i : Nat) m, (classAt settings handlers c ds k).methods[i]? = some m →
      o.directive.target.accepts m = true → ∃ body m', handlers o.directive.handler = some body ∧
        (classAt settings handlers c ds (k + 1)).methods[i]? = some m' ∧
        Copied o.directive.handler.owner (classAt settings handlers c ds k).name body m m' := by
  have hc : c.woven = false := by
    refine Bool.eq_false_iff.2 fun hc => ?_
    have hnot := not_applied_of_woven hc o (List.mem_of_getElem? ho)
    simp [Outcome.isApplied, happlied] at hnot
  obtain ⟨hnext, houtcome⟩ := turn_of_unwoven hc ho
  have haccount : Accounted settings handlers (classAt settings handlers c ds k) o := by
    rw [houtcome]
    exact accounted_weaveOne
  refine ⟨?_, ?_⟩
  · rw [(haccount.listed happlied).1, Directive.reached, List.filter_eq_self.2]
    intro m _
    rw [pointsIn_of_overwrite haction]
    rfl
  · intro i m hm haccepts
    have hown : m ∈ own o.directive (classAt settings handlers c ds k) :=
      List.mem_filter.2 ⟨List.mem_of_getElem? hm, haccepts⟩
    obtain ⟨body, hbody, hcopied⟩ :=
      copied_of_applies hverify haction (haccount.applied_iff.1 happlied) hown
    refine ⟨body, _, hbody, ?_, hcopied⟩
    rw [hnext, weaveOne_eq.1, List.getElem?_map, hm]
    rfl

/-- A static method that does nothing but what its code does. -/
def plainMethod (code : Code) : Method :=
  ⟨.valueOf, ⟨[], none⟩, Flags.ofBits _ staticFlag, 0, 0, code⟩

def plainClass (code : Code) : ClassDefinition :=
  { ClassDefinition.ofName .object with methods := [plainMethod code] }

def copyDirective : Directive :=
  ⟨.object, ⟨.valueOf, none⟩, ⟨.number, .valueOf, ⟨[], none⟩⟩, 0, false, .overwrite⟩

def copyProvider (code : Code) : HandlerProvider := fun reference =>
  if reference = copyDirective.handler then some (plainMethod code) else none

/-- The handler's own bound is too low. -/
theorem plainClass_copied : ∃ m m', (plainClass [.ret none]).methods[0]? = some m ∧
    (∃ s, m.code.simulate = .ok s) ∧
    (classAt .standard (copyProvider [.pushConstant (.int 7), .pop, .ret none])
      (plainClass [.ret none]) [copyDirective] 1).methods[0]? = some m' ∧ m'.Verified := by
  have houtcomes : (weave .standard (copyProvider [.pushConstant (.int 7), .pop, .ret none])
      (plainClass [.ret none]) [copyDirective]).outcomes[0]? =
        some ⟨0, copyDirective, [(plainMethod []).identity], 1, .applied⟩ := by decide +kernel
  obtain ⟨-, hcopied⟩ := copied_bodies_checked rfl houtcomes rfl rfl
  obtain ⟨body, m', -, hm', hcopied⟩ := hcopied 0 (plainMethod [.ret none]) rfl rfl
  have hsimulated : ∃ s, (plainMethod [.ret none]).code.simulate = .ok s :=
    ⟨⟨0, [some 0]⟩, by decide +kernel⟩
  exact ⟨_, m', rfl, hsimulated, hm', hcopied.verified hsimulated⟩

/-- What is not in order may take the place of what is not in order. -/
theorem unverified_copy : ¬ ∀ settings handlers c ds k o, c.woven = false →
    settings.verifyAfterWeave = true → (weave settings handlers c ds).outcomes[k]? = some o →
    o.status = .applied → o.directive.action = .overwrite →
    ∀ m ∈ (classAt settings handlers c ds (k + 1)).methods, m.identity ∈ o.methods →
      m.Verified := by
  intro hverified
  have houtcomes : (weave .standard (copyProvider [.pop, .ret none]) (plainClass [.pop, .ret none])
      [copyDirective]).outcomes[0]? =
        some ⟨0, copyDirective, [(plainMethod []).identity], 1, .applied⟩ := by decide +kernel
  have hcopied : (classAt .standard (copyProvider [.pop, .ret none])
      (plainClass [.pop, .ret none]) [copyDirective] 1).methods[0]? =
        some (plainMethod [.pop, .ret none]) := by decide +kernel
  obtain ⟨-, s, hs, -⟩ := hverified _ _ _ _ _ _ rfl rfl houtcomes rfl rfl _
    (List.mem_of_getElem? hcopied) (List.mem_singleton.2 rfl)
  have hunderflow : (plainMethod [.pop, .ret none]).code.simulate.isOk = false := by
    decide +kernel
  rw [hs] at hunderflow
  cases hunderflow

end Weaver

end CodeWeaving
