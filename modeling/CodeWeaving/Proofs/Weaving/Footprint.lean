import CodeWeaving.Proofs.Weaving.Accounting

/-! What weaving leaves alone: all of a class but the code, and its bounds, of methods that it
reports. -/
namespace CodeWeaving

/-- The classes differ in the code of methods and its bounds only, and maybe in being woven. -/
structure ClassDefinition.SameHeaders (c c' : ClassDefinition) : Prop where
  name : c'.name = c.name
  superName : c'.superName = c.superName
  fields : c'.fields = c.fields
  length : c'.methods.length = c.methods.length
  methods : ∀ (i : Nat) (m m' : Method), c.methods[i]? = some m → c'.methods[i]? = some m' →
    m.SameHeader m'

/-- The method at a place is not what it was. -/
def ClassDefinition.Changed (c c' : ClassDefinition) (i : Nat) : Prop :=
  c'.methods[i]? ≠ c.methods[i]?

/-- The directive was applied, it is for the method at a place, and the method is listed. -/
def Outcome.Reports (o : Outcome) (c : ClassDefinition) (i : Nat) : Prop :=
  o.status = .applied ∧ o.directive.targetClass = c.name ∧ ∃ m, c.methods[i]? = some m ∧
    o.directive.target.accepts m = true ∧ m.identity ∈ o.methods

theorem Method.SameHeader.identity {m k : Method} (h : m.SameHeader k) :
    k.identity = m.identity := by
  rw [Method.identity, Method.identity, h.name, h.signature]

namespace ClassDefinition.SameHeaders

variable {c c' c'' : ClassDefinition} {o : Outcome} {i : Nat}

theorem refl (c : ClassDefinition) : c.SameHeaders c :=
  ⟨rfl, rfl, rfl, rfl, fun _ m m' hm hm' => by
    cases hm.symm.trans hm'
    exact .refl m⟩

theorem trans (h : c.SameHeaders c') (h' : c'.SameHeaders c'') : c.SameHeaders c'' := by
  refine ⟨h'.name.trans h.name, h'.superName.trans h.superName, h'.fields.trans h.fields,
    h'.length.trans h.length, fun i m m'' hm hm'' => ?_⟩
  have hi : i < c'.methods.length := h'.length ▸ (List.getElem?_eq_some_iff.1 hm'').1
  have hm' := List.getElem?_eq_getElem hi
  exact (h.methods i _ _ hm hm').trans (h'.methods i _ _ hm' hm'')

theorem markWoven (h : c.SameHeaders c') : c.SameHeaders c'.markWoven :=
  ⟨h.name, h.superName, h.fields, h.length, h.methods⟩

/-- It makes no difference when a method is looked at to tell whether it was reported. -/
theorem reports (h : c.SameHeaders c') (ho : o.Reports c' i) : o.Reports c i := by
  obtain ⟨happlied, hclass, m', hm', haccepts, hlisted⟩ := ho
  have hi : i < c.methods.length := h.length ▸ (List.getElem?_eq_some_iff.1 hm').1
  have hm := List.getElem?_eq_getElem hi
  have hsame := h.methods i _ _ hm hm'
  exact ⟨happlied, hclass.trans h.name, _, hm, (hsame.accepts _).symm.trans haccepts,
    hsame.identity ▸ hlisted⟩

end ClassDefinition.SameHeaders

namespace Weaver

variable {settings : Settings} {handlers : HandlerProvider} {c : ClassDefinition} {d : Directive}
  {ds : List Directive} {o : Outcome} {m : Method} {index i k : Nat}

theorem sameHeaders_weaveOne : c.SameHeaders (weaveOne settings handlers c index d).1 := by
  rw [weaveOne_eq.1]
  refine ⟨rfl, rfl, rfl, List.length_map _, fun i m m' hm hm' => ?_⟩
  rw [List.getElem?_map, hm] at hm'
  cases hm'
  exact sameHeader_rework

/-- Only a method with a point in it is made into another. -/
theorem pointsIn_pos_of_rework {name : ClassName} {ms : List Method}
    (h : rework settings handlers d name ms m ≠ m) : (∃ progress,
      verdict settings handlers d name ms = .ok progress) ∧ d.target.accepts m = true ∧
        0 < d.pointsIn settings m.code := by
  unfold rework at h
  split at h
  · rename_i progress body hverdict _
    split at h
    · rename_i haccepts
      refine ⟨⟨progress, hverdict⟩, haccepts, ?_⟩
      cases hresult : (weaveMethod (contextOf settings name d body)).result (Draft.ofMethod m) with
      | ok n =>
        obtain ⟨rfl, hpos⟩ := points_of_weaveMethod hresult
        exact hpos
      | error e =>
        rw [wovenMethod, hresult] at h
        exact absurd rfl h
    · exact absurd rfl h
  · exact absurd rfl h

/-- A directive changes no method that its outcome does not report, and none that it has no point
in. -/
theorem reports_of_changed (h : c.Changed (weaveOne settings handlers c index d).1 i) :
    (weaveOne settings handlers c index d).2.1.Reports c i ∧
      ∃ m, c.methods[i]? = some m ∧ 0 < d.pointsIn settings m.code := by
  rw [ClassDefinition.Changed, weaveOne_eq.1] at h
  dsimp only at h
  rw [List.getElem?_map] at h
  cases hm : c.methods[i]? with
  | none =>
    rw [hm] at h
    exact absurd rfl h
  | some m =>
    rw [hm] at h
    obtain ⟨⟨progress, hverdict⟩, haccepts, hpos⟩ :=
      pointsIn_pos_of_rework fun hsame => h (congrArg some hsame)
    have happlied : (weaveOne settings handlers c index d).2.1.status = .applied := by
      rw [weaveOne_eq.2, hverdict]
      rfl
    have haccount : Accounted settings handlers c (weaveOne settings handlers c index d).2.1 :=
      accounted_weaveOne
    have hown : m ∈ own d c := List.mem_filter.2 ⟨List.mem_of_getElem? hm, haccepts⟩
    have hreached : m ∈ d.reached settings c := List.mem_filter.2 ⟨hown, decide_eq_true hpos⟩
    refine ⟨⟨happlied, (haccount.applied_iff.1 happlied).1, m, hm, ?_, ?_⟩, m, rfl, hpos⟩
    · rw [directive_weaveOne]
      exact haccepts
    · rw [(haccount.listed happlied).1, directive_weaveOne]
      exact List.mem_map_of_mem hreached

/-- What a turn leaves alone. -/
theorem turn_footprint (h : (weave settings handlers c ds).outcomes[k]? = some o) :
    (classAt settings handlers c ds k).SameHeaders (classAt settings handlers c ds (k + 1)) ∧
      ∀ i, (classAt settings handlers c ds k).Changed (classAt settings handlers c ds (k + 1)) i →
        o.Reports (classAt settings handlers c ds k) i ∧
          ∃ m, (classAt settings handlers c ds k).methods[i]? = some m ∧
            0 < o.directive.pointsIn settings m.code := by
  cases hc : c.woven with
  | true =>
    rw [classAt_of_woven hc, classAt_of_woven hc]
    exact ⟨.refl c, fun i hi => absurd rfl hi⟩
  | false =>
    obtain ⟨hnext, ho⟩ := turn_of_unwoven hc h
    rw [hnext]
    refine ⟨sameHeaders_weaveOne, fun i hi => ?_⟩
    obtain ⟨hreports, hpoint⟩ := reports_of_changed hi
    exact ⟨ho ▸ hreports, hpoint⟩

/-- What any number of turns leaves alone. -/
theorem turns_footprint (hk : k ≤ (weave settings handlers c ds).outcomes.length) :
    c.SameHeaders (classAt settings handlers c ds k) ∧
      ∀ i, c.Changed (classAt settings handlers c ds k) i →
        ∃ o ∈ (weave settings handlers c ds).outcomes, o.Reports c i := by
  refine classAt_induction (P := fun c' => c.SameHeaders c' ∧ ∀ i, c.Changed c' i →
    ∃ o ∈ (weave settings handlers c ds).outcomes, o.Reports c i) ?_ ?_ k hk
  · exact ⟨.refl c, fun i hi => absurd rfl hi⟩
  · rintro k o ho ⟨hsame, hreported⟩
    obtain ⟨hturn, hchanged⟩ := turn_footprint ho
    refine ⟨hsame.trans hturn, fun i hi => ?_⟩
    -- What had changed before was reported then; all else is as it was when its turn came.
    by_cases hbefore : c.Changed (classAt settings handlers c ds k) i
    · exact hreported i hbefore
    · have hnow := hchanged i fun heq => hi (heq.trans (not_not.1 hbefore))
      exact ⟨o, List.mem_of_getElem? ho, hsame.reports hnow.1⟩

/-- Weaving leaves a class as it is but for the code, and its bounds, of methods that are reported,
and one directive leaves those as they are that it has no point in. -/
theorem weave_footprint :
    c.SameHeaders (weave settings handlers c ds).cls ∧
    (weave settings handlers c ds).cls.woven = true ∧
    (∀ i, c.Changed (weave settings handlers c ds).cls i →
      ∃ o ∈ (weave settings handlers c ds).outcomes, o.Reports c i) ∧
    classAt settings handlers c ds 0 = c ∧
    (weave settings handlers c ds).cls = (classAt settings handlers c ds
      (weave settings handlers c ds).outcomes.length).markWoven ∧
    ∀ k o, (weave settings handlers c ds).outcomes[k]? = some o → ∀ i,
      (classAt settings handlers c ds k).Changed (classAt settings handlers c ds (k + 1)) i →
        o.Reports (classAt settings handlers c ds k) i ∧
          ∃ m, (classAt settings handlers c ds k).methods[i]? = some m ∧
            0 < o.directive.pointsIn settings m.code := by
  obtain ⟨hsame, hreported⟩ := @turns_footprint settings handlers c ds _ le_rfl
  refine ⟨?_, ?_, ?_, classAt_zero, cls_weave, fun k o ho => (turn_footprint ho).2⟩
  · rw [cls_weave]
    exact hsame.markWoven
  · rw [cls_weave]
    rfl
  · rw [cls_weave]
    exact hreported

theorem guardedClass_footprint :
    guardedClass.Changed (weave .standard guardProvider guardedClass [guardDirective]).cls 0 ∧
      ∃ o ∈ (weave .standard guardProvider guardedClass [guardDirective]).outcomes,
        o.Reports guardedClass 0 := by
  have hchanged : guardedClass.Changed
      (weave .standard guardProvider guardedClass [guardDirective]).cls 0 := by
    unfold ClassDefinition.Changed
    decide +kernel
  exact ⟨hchanged, weave_footprint.2.2.1 0 hchanged⟩

end Weaver

end CodeWeaving
