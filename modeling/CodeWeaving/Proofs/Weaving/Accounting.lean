import CodeWeaving.Proofs.Weaving.Points
import CodeWeaving.Proofs.Weaving.Turns

/-! The account that outcomes give of a weaving: one for each directive, in weaving order, that says
whether the directive was applied, where, or what stood in its way. -/
namespace CodeWeaving

/-- The methods of a class that a directive is for and has a point in. -/
def Directive.reached (d : Directive) (settings : Settings) (c : ClassDefinition) : List Method :=
  (Weaver.own d c).filter fun m => 0 < d.pointsIn settings m.code

/-- What is made of a cause. -/
def Reported (required : Bool) (cause : WeaveError) (s : Status) : Prop :=
  match cause with
  | .typeMismatch _ | .unresolvedHandler _ | .emptyHandler _ | .wrongClass .. => s = .skipped cause
  | .noMatch _ | .noTargetMethod .. => s = if required then .failed cause else .skipped cause
  | _ => s = .failed cause

namespace Weaver

/-- The directive does not get through the method, and not for want of a match. -/
def Faults (cx : Context) (m : Method) (e : WeaveError) : Prop :=
  (weaveMethod cx).result (Draft.ofMethod m) = .error e ∧ ∀ sought, e ≠ .noMatch sought

/-- What was looked for in a method, if it was not found. -/
def missed? (cx : Context) (m : Method) : Option Sought :=
  match (weaveMethod cx).result (Draft.ofMethod m) with
  | .error (.noMatch sought) => some sought
  | _ => none

/-- Every method that the directive is for can be woven into or passed by, and there is a point in
one of them. -/
def Applies (settings : Settings) (handlers : HandlerProvider) (d : Directive)
    (c : ClassDefinition) : Prop :=
  d.targetClass = c.name ∧ ∃ body, handlers d.handler = some body ∧
    (∀ m ∈ own d c, ∀ e, ¬ Faults (contextOf settings c.name d body) m e) ∧
    ∃ m ∈ own d c, 0 < d.pointsIn settings m.code

/-- What first stands in the way of a directive for a class. -/
inductive Hindrance (settings : Settings) (handlers : HandlerProvider) (d : Directive)
    (c : ClassDefinition) : WeaveError → Prop where
  | otherClass (h : d.targetClass ≠ c.name) :
    Hindrance settings handlers d c (.wrongClass d.targetClass c.name)
  | noMethod (hclass : d.targetClass = c.name) (h : own d c = []) :
    Hindrance settings handlers d c (.noTargetMethod c.name d.target)
  | noHandler (hclass : d.targetClass = c.name) (hown : own d c ≠ [])
    (h : handlers d.handler = none) :
    Hindrance settings handlers d c (.unresolvedHandler d.handler)
  /-- The first method at fault is the last that is tried. -/
  | fault {body m : Method} {before after : List Method} {e : WeaveError}
    (hclass : d.targetClass = c.name) (hhandler : handlers d.handler = some body)
    (hown : own d c = before ++ m :: after)
    (hbefore : ∀ k ∈ before, ∀ e, ¬ Faults (contextOf settings c.name d body) k e)
    (h : Faults (contextOf settings c.name d body) m e) :
    Hindrance settings handlers d c e
  /-- Of the methods without a match, the last is reported. -/
  | noPoint {body m : Method} {before : List Method} {sought : Sought}
    (hclass : d.targetClass = c.name) (hhandler : handlers d.handler = some body)
    (hown : own d c = before ++ [m])
    (hfaultless : ∀ k ∈ own d c, ∀ e, ¬ Faults (contextOf settings c.name d body) k e)
    (hreached : d.reached settings c = [])
    (h : missed? (contextOf settings c.name d body) m = some sought) :
    Hindrance settings handlers d c (.noMatch sought)

/-- The outcome tells what the directive comes to in the class. -/
structure Accounted (settings : Settings) (handlers : HandlerProvider) (c : ClassDefinition)
    (o : Outcome) : Prop where
  applied_iff : o.status = .applied ↔ Applies settings handlers o.directive c
  listed : o.status = .applied →
    o.methods = (o.directive.reached settings c).map Method.identity ∧
      o.points =
        ((o.directive.reached settings c).map fun m => o.directive.pointsIn settings m.code).sum
  hindered : o.status ≠ .applied → ∃ cause, Hindrance settings handlers o.directive c cause ∧
    Reported o.directive.required cause o.status ∧ o.methods = [] ∧ o.points = 0

section

variable {settings : Settings} {name : ClassName} {d : Directive} {cx : Context} {body m : Method}
  {ms before after : List Method} {e : WeaveError} {progress : Progress}

theorem first_fault (cx : Context) (ms : List Method) : (∀ m ∈ ms, ∀ e, ¬ Faults cx m e) ∨
    ∃ before m after e, ms = before ++ m :: after ∧ (∀ k ∈ before, ∀ e, ¬ Faults cx k e) ∧
      Faults cx m e := by
  induction ms with
  | nil => exact .inl (List.forall_mem_nil _)
  | cons m ms ih =>
    by_cases hm : ∃ e, Faults cx m e
    · obtain ⟨e, he⟩ := hm
      exact .inr ⟨[], m, ms, e, rfl, List.forall_mem_nil _, he⟩
    · have hnot : ∀ e, ¬ Faults cx m e := fun e he => hm ⟨e, he⟩
      rcases ih with hms | ⟨before, k, after, e, rfl, hbefore, hk⟩
      · exact .inl (List.forall_mem_cons.2 ⟨hnot, hms⟩)
      · exact .inr ⟨m :: before, k, after, e, rfl, List.forall_mem_cons.2 ⟨hnot, hbefore⟩, hk⟩

theorem missed_of_noMatch {sought : Sought}
    (h : (weaveMethod cx).result (Draft.ofMethod m) = .error (.noMatch sought)) :
    missed? cx m = some sought := by
  rw [missed?, h]

theorem missed_of_ok {n : Nat} (h : (weaveMethod cx).result (Draft.ofMethod m) = .ok n) :
    missed? cx m = none := by
  rw [missed?, h]

/-- A method that is not at fault is woven into at all its points, or has none. -/
theorem result_of_not_faults (h : ∀ e, ¬ Faults (contextOf settings name d body) m e) :
    (weaveMethod (contextOf settings name d body)).result (Draft.ofMethod m) =
        .ok (d.pointsIn settings m.code) ∧ 0 < d.pointsIn settings m.code ∨
      (∃ sought, (weaveMethod (contextOf settings name d body)).result (Draft.ofMethod m) =
        .error (.noMatch sought)) ∧ d.pointsIn settings m.code = 0 := by
  cases hresult : (weaveMethod (contextOf settings name d body)).result (Draft.ofMethod m) with
  | ok n =>
    obtain ⟨rfl, hpos⟩ := points_of_weaveMethod hresult
    exact .inl ⟨rfl, hpos⟩
  | error e =>
    have hmiss : ∃ sought, e = .noMatch sought :=
      Classical.byContradiction fun hne => h e ⟨hresult, fun sought heq => hne ⟨sought, heq⟩⟩
    obtain ⟨sought, rfl⟩ := hmiss
    exact .inr ⟨⟨sought, rfl⟩, pointsIn_of_noMatch hresult⟩

theorem tally_of_fault (hms : ms = before ++ m :: after)
    (hbefore : ∀ k ∈ before, ∀ e, ¬ Faults cx k e) (h : Faults cx m e) :
    tally cx progress ms = .error e := by
  subst hms
  induction before generalizing progress with
  | nil =>
    rw [List.nil_append, tally, h.1]
    cases e with
    | noMatch sought => exact absurd rfl (h.2 sought)
    | _ => rfl
  | cons k before ih =>
    obtain ⟨hk, hbefore⟩ := List.forall_mem_cons.1 hbefore
    rw [List.cons_append, tally]
    cases hresult : (weaveMethod cx).result (Draft.ofMethod k) with
    | ok n => exact ih hbefore
    | error e =>
      cases e with
      | noMatch sought => exact ih hbefore
      | _ => exact absurd ⟨hresult, WeaveError.ne_noMatch rfl⟩ (hk _)

/-- Where no method is at fault, those with a point are counted, and of the others the last is
remembered. -/
theorem tally_of_faultless (h : ∀ m ∈ ms, ∀ e, ¬ Faults (contextOf settings name d body) m e) :
    tally (contextOf settings name d body) progress ms =
      let counted := ms.filter fun m => 0 < d.pointsIn settings m.code
      .ok ⟨progress.methods ++ counted.map Method.identity,
        progress.points + (counted.map fun m => d.pointsIn settings m.code).sum,
        (ms.reverse.findSome? (missed? (contextOf settings name d body))).or
          progress.unmatched⟩ := by
  induction ms generalizing progress with
  | nil => simp [tally]
  | cons m ms ih =>
    obtain ⟨hm, hms⟩ := List.forall_mem_cons.1 h
    rw [List.reverse_cons, List.findSome?_append, Option.or_assoc, List.findSome?_singleton, tally]
    rcases result_of_not_faults hm with ⟨hresult, hpos⟩ | ⟨⟨sought, hresult⟩, hzero⟩
    · rw [hresult, missed_of_ok hresult, Option.none_or,
        List.filter_cons_of_pos (by simpa using hpos)]
      dsimp only
      rw [ih hms]
      simp [Progress.add, Nat.add_assoc]
    · rw [hresult, missed_of_noMatch hresult, List.filter_cons_of_neg (by simp [hzero])]
      dsimp only
      rw [ih hms]
      rfl

end

section

variable {settings : Settings} {handlers : HandlerProvider} {c : ClassDefinition} {d : Directive}
  {cause : WeaveError} {body : Method} {index : Nat}

theorem reached_eq_nil : d.reached settings c = [] ↔
    ∀ m ∈ own d c, d.pointsIn settings m.code = 0 := by
  simp [Directive.reached, List.filter_eq_nil_iff]

theorem verdict_of_handler (hclass : d.targetClass = c.name) (hown : own d c ≠ [])
    (hhandler : handlers d.handler = some body) :
    verdict settings handlers d c.name (own d c) =
      (tally (contextOf settings c.name d body) Progress.start (own d c)).bind
        Progress.verdict := by
  rw [verdict, if_neg (not_not_intro hclass), if_neg (by simpa using hown), hhandler]

theorem verdict_of_faultless (hclass : d.targetClass = c.name) (hown : own d c ≠ [])
    (hhandler : handlers d.handler = some body)
    (hfaultless : ∀ m ∈ own d c, ∀ e, ¬ Faults (contextOf settings c.name d body) m e) :
    verdict settings handlers d c.name (own d c) = Progress.verdict
      ⟨(d.reached settings c).map Method.identity,
        ((d.reached settings c).map fun m => d.pointsIn settings m.code).sum,
        (own d c).reverse.findSome? (missed? (contextOf settings c.name d body))⟩ := by
  rw [verdict_of_handler hclass hown hhandler, tally_of_faultless hfaultless]
  simp [Progress.start, Directive.reached, Except.bind]

/-- Without a point in any method, the last of them is what is reported. -/
theorem hindrance_of_no_point (hclass : d.targetClass = c.name) (hown : own d c ≠ [])
    (hhandler : handlers d.handler = some body)
    (hfaultless : ∀ m ∈ own d c, ∀ e, ¬ Faults (contextOf settings c.name d body) m e)
    (hreached : d.reached settings c = []) :
    ∃ cause, verdict settings handlers d c.name (own d c) = .error cause ∧
      Hindrance settings handlers d c cause := by
  obtain ⟨before, m, hlast⟩ := (own d c).eq_nil_or_concat.resolve_left hown
  rw [List.concat_eq_append] at hlast
  have hm : m ∈ own d c := by simp [hlast]
  obtain ⟨sought, hsought⟩ : ∃ sought, (weaveMethod (contextOf settings c.name d body)).result
      (Draft.ofMethod m) = .error (.noMatch sought) := by
    rcases result_of_not_faults (hfaultless m hm) with ⟨-, hpos⟩ | ⟨hmissed, -⟩
    · exact absurd (reached_eq_nil.1 hreached m hm) (Nat.ne_of_gt hpos)
    · exact hmissed
  have hmissed := missed_of_noMatch hsought
  refine ⟨.noMatch sought, ?_, .noPoint hclass hhandler hlast hfaultless hreached hmissed⟩
  rw [verdict_of_faultless hclass hown hhandler hfaultless, hreached, hlast, List.reverse_append,
    List.reverse_singleton, List.singleton_append, List.findSome?_cons_of_isSome, hmissed]
  · rfl
  · rw [hmissed]
    rfl

/-- A point is enough, whatever was missed elsewhere. -/
theorem verdict_of_applies (h : Applies settings handlers d c) :
    ∃ progress, verdict settings handlers d c.name (own d c) = .ok progress ∧
      progress.methods = (d.reached settings c).map Method.identity ∧
      progress.points =
        ((d.reached settings c).map fun m => d.pointsIn settings m.code).sum := by
  obtain ⟨hclass, body, hhandler, hfaultless, m, hm, hpos⟩ := h
  have hreached : m ∈ d.reached settings c := List.mem_filter.2 ⟨hm, decide_eq_true hpos⟩
  have hpoints : 0 < ((d.reached settings c).map fun m => d.pointsIn settings m.code).sum :=
    List.sum_pos_iff_exists_pos_nat.2 ⟨_, List.mem_map_of_mem hreached, hpos⟩
  have hverdict (p : Progress) (h : 0 < p.points) : p.verdict = .ok p := by
    rw [Progress.verdict]
    split
    · exact if_neg (Nat.ne_of_gt h)
    · rfl
  have h := verdict_of_faultless hclass (List.ne_nil_of_mem hm) hhandler hfaultless
  rw [hverdict _ hpoints] at h
  exact ⟨_, h, rfl, rfl⟩

theorem Hindrance.not_applies (h : Hindrance settings handlers d c cause) :
    ¬ Applies settings handlers d c := by
  rintro ⟨hclass, body, hhandler, hfaultless, m, hm, hpos⟩
  cases h with
  | otherClass hother => exact hother hclass
  | noMethod _ hown =>
    rw [hown] at hm
    cases hm
  | noHandler _ _ hnone => cases hnone.symm.trans hhandler
  | fault _ hhandler' hown _ hfault =>
    cases hhandler'.symm.trans hhandler
    exact hfaultless _ (by simp [hown]) _ hfault
  | noPoint _ _ _ _ hreached => exact Nat.ne_of_gt hpos (reached_eq_nil.1 hreached m hm)

/-- A directive applies, or something stands in its way. -/
theorem applies_or_hindrance : Applies settings handlers d c ∨
    ∃ cause, verdict settings handlers d c.name (own d c) = .error cause ∧
      Hindrance settings handlers d c cause := by
  by_cases hclass : d.targetClass = c.name
  · by_cases hown : own d c = []
    · refine .inr ⟨_, ?_, .noMethod hclass hown⟩
      rw [verdict, if_neg (not_not_intro hclass), hown]
      rfl
    · cases hhandler : handlers d.handler with
      | none =>
        refine .inr ⟨_, ?_, .noHandler hclass hown hhandler⟩
        rw [verdict, if_neg (not_not_intro hclass), if_neg (by simpa using hown), hhandler]
      | some body =>
        rcases first_fault (contextOf settings c.name d body) (own d c) with
          hfaultless | ⟨before, m, after, e, hms, hbefore, hfault⟩
        · by_cases hreached : d.reached settings c = []
          · exact .inr (hindrance_of_no_point hclass hown hhandler hfaultless hreached)
          · obtain ⟨m, hm⟩ := List.exists_mem_of_ne_nil _ hreached
            obtain ⟨hmem, hpos⟩ := List.mem_filter.1 hm
            exact .inl ⟨hclass, body, hhandler, hfaultless, m, hmem, of_decide_eq_true hpos⟩
        · refine .inr ⟨e, ?_, .fault hclass hhandler hms hbefore hfault⟩
          rw [verdict_of_handler hclass hown hhandler, tally_of_fault hms hbefore hfault]
          rfl
  · exact .inr ⟨_, if_pos hclass, .otherClass hclass⟩

theorem reported_statusOf : Reported d.required cause (statusOf d cause) := by
  cases cause <;> cases hrequired : d.required <;> simp [Reported, statusOf, isHarmless, hrequired]

theorem statusOf_ne_applied : statusOf d cause ≠ .applied := by
  unfold statusOf
  intro h
  split at h <;> cases h

/-- The first method at fault decides on the outcome. -/
theorem outcome_of_fault {m : Method} {before after : List Method} (hclass : d.targetClass = c.name)
    (hhandler : handlers d.handler = some body) (hown : own d c = before ++ m :: after)
    (hbefore : ∀ k ∈ before, ∀ e, ¬ Faults (contextOf settings c.name d body) k e)
    (h : Faults (contextOf settings c.name d body) m cause) :
    (weaveOne settings handlers c index d).2.1 = ⟨index, d, [], 0, statusOf d cause⟩ := by
  have hne : own d c ≠ [] := by simp [hown]
  rw [weaveOne_eq.2, verdict_of_handler hclass hne hhandler, tally_of_fault hown hbefore h]
  rfl

/-- The account of one directive. -/
theorem accounted_weaveOne :
    Accounted settings handlers c (weaveOne settings handlers c index d).2.1 := by
  rw [weaveOne_eq.2]
  rcases applies_or_hindrance with happlies | ⟨cause, hverdict, hhindrance⟩
  · obtain ⟨progress, hverdict, hlisted⟩ := verdict_of_applies happlies
    rw [hverdict]
    exact ⟨iff_of_true rfl happlies, fun _ => hlisted, fun hnot => absurd rfl hnot⟩
  · rw [hverdict]
    refine ⟨iff_of_false statusOf_ne_applied hhindrance.not_applies, ?_, ?_⟩
    · exact fun happlied => absurd happlied statusOf_ne_applied
    · exact fun _ => ⟨cause, hhindrance, reported_statusOf, rfl, rfl⟩

/-- A directive reported as applied has had its turn, and applied in it. -/
theorem turn_of_applied {ds : List Directive} {o : Outcome} {k : Nat}
    (ho : (weave settings handlers c ds).outcomes[k]? = some o) (happlied : o.status = .applied) :
    classAt settings handlers c ds (k + 1) =
        (weaveOne settings handlers (classAt settings handlers c ds k) o.index o.directive).1 ∧
      Applies settings handlers o.directive (classAt settings handlers c ds k) := by
  have hc : c.woven = false := by
    refine Bool.eq_false_iff.2 fun hc => ?_
    have hnot := not_applied_of_woven hc o (List.mem_of_getElem? ho)
    simp [Outcome.isApplied, happlied] at hnot
  obtain ⟨hnext, houtcome⟩ := turn_of_unwoven hc ho
  have haccount : Accounted settings handlers (classAt settings handlers c ds k) o := by
    rw [houtcome]
    exact accounted_weaveOne
  exact ⟨hnext, haccount.applied_iff.1 happlied⟩

/-- Every directive has its outcome, in weaving order, and every outcome is a true account of what
the directive came to in the class as it found it. -/
theorem outcomes_account {ds : List Directive} (hc : c.woven = false) :
    ((weave settings handlers c ds).outcomes.map fun o => (o.directive, o.index)).Perm ds.zipIdx ∧
    (weave settings handlers c ds).outcomes.Pairwise
      (Precedes (fun o => o.directive.priority) Outcome.index) ∧
    ∀ k o, (weave settings handlers c ds).outcomes[k]? = some o →
      Accounted settings handlers (classAt settings handlers c ds k) o := by
  have hplaced : (weave settings handlers c ds).outcomes.map (fun o => (o.directive, o.index)) =
      weavingOrder ds := by
    rw [(weave_of_unwoven hc).2, map_placed_weaveInOrder]
  refine ⟨?_, ?_, ?_⟩
  · rw [hplaced]
    exact inWeavingOrder_perm
  · have horder : (weavingOrder ds).Pairwise (Precedes (fun x => x.1.priority) Prod.snd) :=
      pairwise_inWeavingOrder pairwise_zipIdx
    rw [← hplaced, List.pairwise_map] at horder
    exact horder
  · intro k o h
    rw [(turn_of_unwoven hc h).2]
    exact accounted_weaveOne

theorem guardedClass_accounted :
    guardedClass.woven = false ∧
      (weave .standard guardProvider guardedClass [guardDirective]).outcomes =
        [⟨0, guardDirective, [guardedMethod.identity], 2, .applied⟩] ∧
      Accounted .standard guardProvider guardedClass
        ⟨0, guardDirective, [guardedMethod.identity], 2, .applied⟩ := by
  have houtcomes : (weave .standard guardProvider guardedClass [guardDirective]).outcomes =
      [⟨0, guardDirective, [guardedMethod.identity], 2, .applied⟩] := by decide +kernel
  have haccount := (outcomes_account rfl).2.2 0 _ (by rw [houtcomes]; rfl)
  rw [classAt_zero] at haccount
  exact ⟨rfl, houtcomes, haccount⟩

end

end Weaver

end CodeWeaving
