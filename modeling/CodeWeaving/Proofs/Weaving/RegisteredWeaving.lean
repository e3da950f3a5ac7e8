import CodeWeaving.Proofs.Weaving.Atomicity
import CodeWeaving.Proofs.Weaving.MethodWise

/-! Weaving from a registry: the directives of one class, picked out and put in order beforehand, do
what they do among all others. -/
namespace CodeWeaving

variable {name : ClassName} {d : Directive} {ds : List Directive}

/-- The directives listed, by falling priority and, where that is equal, as they are listed. -/
def InWeavingOrder (l ds : List Directive) : Prop :=
  ∃ placed : List (Directive × Nat), placed.Perm ds.zipIdx ∧
    placed.Pairwise (Precedes (fun x => x.1.priority) Prod.snd) ∧ l = placed.map Prod.fst

theorem map_fst_weavingOrder :
    (Weaver.weavingOrder ds).map Prod.fst = inWeavingOrder Directive.priority ds := by
  have hfst : ds = ds.zipIdx.map Prod.fst := (List.zipIdx_map_fst 0 ds).symm
  conv_rhs => rw [hfst, inWeavingOrder_map]
  rfl

theorem inWeavingOrder_spec : InWeavingOrder (inWeavingOrder Directive.priority ds) ds :=
  ⟨Weaver.weavingOrder ds, inWeavingOrder_perm, pairwise_inWeavingOrder Weaver.pairwise_zipIdx,
    map_fst_weavingOrder.symm⟩

/-- Picking directives out and putting them in order can be done in either order. -/
theorem filter_inWeavingOrder (keep : Directive → Bool) :
    inWeavingOrder Directive.priority (ds.filter keep) =
      (inWeavingOrder Directive.priority ds).filter keep := by
  have hkept : ds.filter keep = (ds.zipIdx.filter (keep ∘ Prod.fst)).map Prod.fst := by
    rw [← List.filter_map, List.zipIdx_map_fst]
  rw [hkept, inWeavingOrder_map, ← map_fst_weavingOrder, List.filter_map]
  exact congrArg (List.map Prod.fst) (inWeavingOrder_filter Weaver.pairwise_zipIdx _)

/-- What is in order stays as it is. -/
theorem inWeavingOrder_of_pairwise (h : ds.Pairwise fun a b => b.priority ≤ a.priority) :
    inWeavingOrder Directive.priority ds = ds := by
  apply List.mergeSort_of_pairwise
  exact h.imp fun hab => decide_eq_true hab

theorem inWeavingOrder_idem : inWeavingOrder Directive.priority
    (inWeavingOrder Directive.priority ds) = inWeavingOrder Directive.priority ds := by
  apply inWeavingOrder_of_pairwise
  rw [← map_fst_weavingOrder, List.pairwise_map]
  refine (pairwise_inWeavingOrder Weaver.pairwise_zipIdx).imp ?_
  intro a b hab
  rw [Int32.le_iff_toInt_le]
  rcases hab with hlower | ⟨hequal, -⟩
  · exact Int.le_of_lt (Int32.lt_iff_toInt_lt.1 hlower)
  · exact Int.le_of_eq (congrArg Int32.toInt hequal.symm)

namespace Registry

variable {classes : List (ClassName × List Directive)} {c : ClassName}

theorem lookup_cons : ((c, ds) :: classes).lookup name =
    if c = name then some ds else classes.lookup name := by
  rw [List.lookup_cons]
  by_cases hc : c = name
  · rw [if_pos hc, hc, beq_self_eq_true]
  · rw [if_neg hc, beq_false_of_ne (Ne.symm hc)]

theorem lookup_insert : ((insert classes d).lookup name).getD [] =
    (classes.lookup name).getD [] ++ if d.targetClass = name then [d] else [] := by
  induction classes with
  | nil =>
    by_cases hd : d.targetClass = name <;> simp [insert, lookup_cons, hd]
  | cons x classes ih =>
    obtain ⟨c, ds⟩ := x
    unfold insert
    by_cases hc : c = d.targetClass
    · rw [if_pos hc]
      by_cases hd : d.targetClass = name <;> simp [lookup_cons, hc, hd]
    · rw [if_neg hc, lookup_cons, lookup_cons]
      by_cases hname : c = name
      · have hd : d.targetClass ≠ name := fun h => hc (hname.trans h.symm)
        simp [hname, hd]
      · rw [if_neg hname, if_neg hname, ih]

theorem lookup_foldl_insert : ((ds.foldl insert classes).lookup name).getD [] =
    (classes.lookup name).getD [] ++ ds.filter fun d => d.targetClass = name := by
  induction ds generalizing classes with
  | nil => simp
  | cons d ds ih =>
    rw [List.foldl_cons, ih, lookup_insert, List.append_assoc, List.filter_cons]
    by_cases hd : d.targetClass = name <;> simp [hd]

theorem classes_ofList : (ofList ds).classes =
    (ds.foldl insert []).map (Prod.map id (inWeavingOrder Directive.priority)) := rfl

theorem lookup_map_snd (f : List Directive → List Directive) :
    (classes.map (Prod.map id f)).lookup name = (classes.lookup name).map f := by
  induction classes with
  | nil => rfl
  | cons x classes ih =>
    obtain ⟨c, ds⟩ := x
    rw [List.map_cons, Prod.map_apply, id_eq, lookup_cons, lookup_cons, ih]
    by_cases hc : c = name
    · rw [if_pos hc, if_pos hc, Option.map_some]
    · rw [if_neg hc, if_neg hc]

/-- A class's directives are those for it, in weaving order. -/
theorem directivesFor_ofList : (ofList ds).directivesFor name =
    inWeavingOrder Directive.priority (ds.filter fun d => d.targetClass = name) := by
  have hlisted : ((ds.foldl insert []).lookup name).getD [] =
      ds.filter fun d => d.targetClass = name := lookup_foldl_insert
  unfold directivesFor
  rw [classes_ofList, lookup_map_snd, ← hlisted]
  cases (ds.foldl insert []).lookup name with
  | none => exact List.mergeSort_nil.symm
  | some l => rfl

theorem length_flatMap_insert :
    ((insert classes d).flatMap Prod.snd).length = (classes.flatMap Prod.snd).length + 1 := by
  induction classes with
  | nil => rfl
  | cons x classes ih =>
    obtain ⟨c, ds⟩ := x
    unfold insert
    by_cases hc : c = d.targetClass
    · rw [if_pos hc]
      simp only [List.flatMap_cons, List.length_append, List.length_singleton]
      omega
    · rw [if_neg hc]
      simp only [List.flatMap_cons, List.length_append, ih]
      omega

theorem length_flatMap_foldl_insert : ((ds.foldl insert classes).flatMap Prod.snd).length =
    (classes.flatMap Prod.snd).length + ds.length := by
  induction ds generalizing classes with
  | nil => rfl
  | cons d ds ih =>
    rw [List.foldl_cons, ih, length_flatMap_insert, List.length_cons]
    omega

/-- None is lost, and none is there twice. -/
theorem size_ofList : (ofList ds).size = ds.length := by
  have hsorted : ∀ classes : List (ClassName × List Directive),
      ((classes.map (Prod.map id (inWeavingOrder Directive.priority))).flatMap Prod.snd).length =
        (classes.flatMap Prod.snd).length := by
    intro classes
    induction classes with
    | nil => rfl
    | cons x classes ih =>
      rw [List.map_cons, List.flatMap_cons, List.flatMap_cons, List.length_append,
        List.length_append, ih]
      exact congrArg (· + _) inWeavingOrder_perm.length_eq
  unfold size
  rw [classes_ofList, hsorted, length_flatMap_foldl_insert]
  simp

end Registry

/-- The outcome, wherever its directive was listed. -/
def Outcome.unplaced (o : Outcome) : Outcome := { o with index := 0 }

namespace Weaver

variable {settings : Settings} {handlers : HandlerProvider} {c : ClassDefinition} {index : Nat}
  {l l' : List (Directive × Nat)}

theorem directive_weaveOne : (weaveOne settings handlers c index d).2.1.directive = d := by
  rw [weaveOne_eq.2]
  unfold outcomeOf
  split <;> rfl

theorem name_weaveOne : (weaveOne settings handlers c index d).1.name = c.name := by
  rw [weaveOne_eq.1]

/-- A directive for another class leaves the class alone. -/
theorem weaveOne_of_foreign (h : d.targetClass ≠ c.name) :
    (weaveOne settings handlers c index d).1 = c := by
  have hverdict : verdict settings handlers d c.name (own d c) =
      .error (.wrongClass d.targetClass c.name) := if_pos h
  rw [weaveOne_eq.1, map_rework_of_error hverdict]

/-- A run does without the directives for other classes. -/
theorem weaveInOrder_own (settings : Settings) (handlers : HandlerProvider)
    (l : List (Directive × Nat)) (hname : c.name = name) :
    (weaveInOrder settings handlers c (l.filter fun x => x.1.targetClass = name)).cls =
        (weaveInOrder settings handlers c l).cls ∧
      (weaveInOrder settings handlers c (l.filter fun x => x.1.targetClass = name)).outcomes =
        (weaveInOrder settings handlers c l).outcomes.filter
          fun o => o.directive.targetClass = name := by
  induction l generalizing c with
  | nil => exact ⟨rfl, rfl⟩
  | cons x l ih =>
    obtain ⟨d, index⟩ := x
    obtain ⟨hcls, houtcomes⟩ := ih (name_weaveOne.trans hname)
    rw [List.filter_cons, outcomes_weaveInOrder_cons, List.filter_cons, directive_weaveOne]
    by_cases hd : d.targetClass = name
    · rw [if_pos (decide_eq_true hd), if_pos (decide_eq_true hd), outcomes_weaveInOrder_cons,
        houtcomes]
      exact ⟨hcls, rfl⟩
    · have hsame : (weaveOne settings handlers c index d).1 = c :=
        weaveOne_of_foreign (hname ▸ hd)
      rw [hsame] at hcls houtcomes
      rw [if_neg (by simpa using hd), if_neg (by simpa using hd), cls_weaveInOrder_cons, hsame]
      exact ⟨hcls, houtcomes⟩

/-- The places of directives in a list make no difference but to the outcomes' own. -/
theorem weaveInOrder_congr (settings : Settings) (handlers : HandlerProvider)
    (c : ClassDefinition) (h : l.map Prod.fst = l'.map Prod.fst) :
    (weaveInOrder settings handlers c l).cls = (weaveInOrder settings handlers c l').cls ∧
      (weaveInOrder settings handlers c l).outcomes.map Outcome.unplaced =
        (weaveInOrder settings handlers c l').outcomes.map Outcome.unplaced := by
  have hplaces (l : List (Directive × Nat)) :
      l.map (Prod.map id fun _ => 0) = (l.map Prod.fst).map fun d => (d, 0) := by
    rw [List.map_map]
    rfl
  have hl := @weaveInOrder_moved settings handlers c l fun _ => 0
  have hl' := @weaveInOrder_moved settings handlers c l' fun _ => 0
  rw [hplaces, h, ← hplaces] at hl
  exact ⟨hl.1.symm.trans hl'.1, hl.2.symm.trans hl'.2⟩

/-- Weaving from a registry that holds the directives does what weaving all of them does. -/
theorem registered_weaving_agrees :
    (∀ name, InWeavingOrder ((Registry.ofList ds).directivesFor name)
      (ds.filter fun d => d.targetClass = name)) ∧
    (Registry.ofList ds).size = ds.length ∧
    ∀ settings handlers c, c.woven = false →
      (weaveRegistered settings handlers c (Registry.ofList ds)).cls =
          (weave settings handlers c ds).cls ∧
        (weaveRegistered settings handlers c (Registry.ofList ds)).outcomes.map Outcome.unplaced =
          ((weave settings handlers c ds).outcomes.filter
            fun o => o.directive.targetClass = c.name).map Outcome.unplaced := by
  refine ⟨?_, Registry.size_ofList, ?_⟩
  · intro name
    rw [Registry.directivesFor_ofList]
    exact inWeavingOrder_spec
  · intro settings handlers c hc
    have horder : (weavingOrder ((Registry.ofList ds).directivesFor c.name)).map Prod.fst =
        ((weavingOrder ds).filter fun x => x.1.targetClass = c.name).map Prod.fst := by
      rw [map_fst_weavingOrder, Registry.directivesFor_ofList, inWeavingOrder_idem,
        filter_inWeavingOrder, ← map_fst_weavingOrder, List.filter_map]
      rfl
    obtain ⟨hcls, houtcomes⟩ := weaveInOrder_congr settings handlers c horder
    obtain ⟨hownCls, hownOutcomes⟩ := weaveInOrder_own settings handlers (weavingOrder ds) rfl
    unfold weaveRegistered
    rw [(weave_of_unwoven hc).1, (weave_of_unwoven hc).2, (weave_of_unwoven hc).1,
      (weave_of_unwoven hc).2, hcls, hownCls, houtcomes, hownOutcomes]
    exact ⟨rfl, rfl⟩

/-- A directive for another class, to be woven first. -/
def foreignGuard : Directive := { guardDirective with targetClass := .number, priority := 5 }

theorem guardedClass_registered :
    (weaveOne .standard guardProvider guardedClass 0 guardDirective).2.1.status = .applied ∧
      guardedClass.woven = false ∧
      (weaveRegistered .standard guardProvider guardedClass
          (Registry.ofList [guardDirective, foreignGuard])).cls =
        (weave .standard guardProvider guardedClass [guardDirective, foreignGuard]).cls :=
  ⟨by decide +kernel, rfl, (registered_weaving_agrees.2.2 _ _ _ rfl).1⟩

end Weaver

end CodeWeaving
