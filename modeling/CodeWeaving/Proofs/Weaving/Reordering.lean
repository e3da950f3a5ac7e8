import CodeWeaving.Proofs.Weaving.RegisteredWeaving

/-! Directives that are for different methods may be woven in either order. -/
namespace CodeWeaving

/-- Lists that come of each other by exchanging neighbours that are apart. -/
inductive Exchanged {α : Type} (apart : α → α → Prop) : List α → List α → Prop
  | refl (l : List α) : Exchanged apart l l
  | cons (a : α) {l l' : List α} (h : Exchanged apart l l') : Exchanged apart (a :: l) (a :: l')
  | swap {a b : α} (h : apart a b) (l : List α) : Exchanged apart (a :: b :: l) (b :: a :: l)
  | trans {l l' l'' : List α} (h : Exchanged apart l l') (h' : Exchanged apart l' l'') :
    Exchanged apart l l''

namespace Exchanged

variable {α : Type} {apart : α → α → Prop} {a : α} {l l' before after : List α} {p : α → Bool}

theorem move (h : ∀ b ∈ before, apart a b) :
    Exchanged apart (a :: (before ++ after)) (before ++ a :: after) := by
  induction before with
  | nil => exact .refl _
  | cons b before ih =>
    have hrest := ih fun b' hb' => h b' (List.mem_cons_of_mem _ hb')
    exact (swap (h b List.mem_cons_self) _).trans (hrest.cons b)

/-- The first of a list is also the first that is kept of it. -/
theorem filter_eq_nil_of_first (hfilter : (a :: l).filter p = (before ++ a :: after).filter p)
    (ha : p a = true) (hbefore : a ∉ before) : before.filter p = [] := by
  rw [List.filter_cons_of_pos ha, List.filter_append] at hfilter
  cases hkept : before.filter p with
  | nil => rfl
  | cons b kept =>
    rw [hkept, List.cons_append] at hfilter
    have hb : b ∈ before.filter p := by
      rw [hkept]
      exact List.mem_cons_self
    have hab : a = b := (List.cons.inj hfilter).1
    exact absurd (hab ▸ List.mem_of_mem_filter hb) hbefore

theorem filter_eq_of_first (hfilter : (a :: l).filter p = (before ++ a :: after).filter p)
    (hbefore : a ∉ before) : l.filter p = (before ++ after).filter p := by
  by_cases ha : p a = true
  · have hnil := filter_eq_nil_of_first hfilter ha hbefore
    rw [List.filter_append, hnil, List.filter_cons_of_pos ha, List.filter_cons_of_pos ha] at hfilter
    rw [List.filter_append, hnil]
    exact (List.cons.inj hfilter).2
  · rw [List.filter_append, List.filter_cons_of_neg ha, List.filter_cons_of_neg ha] at hfilter
    rw [List.filter_append, hfilter]

/-- Rearrangements that keep the order of any two elements that are not apart come about by
exchanges. -/
theorem of_filter [DecidableEq α] (hperm : l.Perm l')
    (h : ∀ a b, ¬ apart a b →
      l.filter (fun x => x = a ∨ x = b) = l'.filter fun x => x = a ∨ x = b) :
    Exchanged apart l l' := by
  induction l generalizing l' with
  | nil =>
    rw [List.nil_perm.1 hperm]
    exact .refl _
  | cons a l ih =>
    obtain ⟨before, after, rfl, hbefore⟩ :=
      List.eq_append_cons_of_mem (hperm.subset List.mem_cons_self)
    have hapart : ∀ b ∈ before, apart a b := by
      intro b hb
      by_contra hnot
      have hnil := filter_eq_nil_of_first (h a b hnot) (by simp) hbefore
      have := List.filter_eq_nil_iff.1 hnil b hb
      simp at this
    refine (ih ?_ ?_).cons a |>.trans (move hapart)
    · exact (hperm.trans List.perm_middle).cons_inv
    · intro x y hxy
      exact filter_eq_of_first (h x y hxy) hbefore

end Exchanged

namespace Weaver

variable {settings : Settings} {handlers : HandlerProvider} {c : ClassDefinition}
  {a b d : Directive} {i j : Nat} {l l' : List Directive}

/-- Some method of the class is for both directives to weave into. -/
def Meet (c : ClassDefinition) (a b : Directive) : Prop :=
  ∃ m ∈ c.methods, a.target.accepts m = true ∧ b.target.accepts m = true

/-- Weaving leaves to every directive the methods that it is for. -/
theorem meet_weaveOne : Meet (weaveOne settings handlers c i d).1 a b ↔ Meet c a b := by
  rw [weaveOne_eq.1]
  simp only [Meet, List.mem_map, exists_exists_and_eq_and, sameHeader_rework.accepts]

theorem Meet.symm (h : Meet c a b) : Meet c b a := by
  obtain ⟨m, hm, ha, hb⟩ := h
  exact ⟨m, hm, hb, ha⟩

theorem rework_comm {name : ClassName} {ms ms' : List Method} {m : Method} (h : ¬ Meet c a b)
    (hm : m ∈ c.methods) :
    rework settings handlers b name ms' (rework settings handlers a name ms m) =
      rework settings handlers a name ms (rework settings handlers b name ms' m) := by
  by_cases ha : a.target.accepts m = true
  · have hb : b.target.accepts m = false := Bool.eq_false_iff.2 fun hb => h ⟨m, hm, ha, hb⟩
    rw [rework_of_not_accepts hb, rework_of_not_accepts]
    rw [sameHeader_rework.accepts, hb]
  · have hafter : rework settings handlers a name ms (rework settings handlers b name ms' m) =
        rework settings handlers b name ms' m := by
      apply rework_of_not_accepts
      rw [sameHeader_rework.accepts, Bool.eq_false_iff.2 ha]
    rw [rework_of_not_accepts (Bool.eq_false_iff.2 ha), hafter]

theorem own_weaveOne (h : ¬ Meet c a b) : own b (weaveOne settings handlers c i a).1 = own b c := by
  rw [weaveOne_eq.1]
  unfold own
  rw [List.filter_map]
  have haccepts : b.target.accepts ∘ rework settings handlers a c.name
      (c.methods.filter a.target.accepts) = b.target.accepts := by
    funext m
    exact sameHeader_rework.accepts _
  rw [haccepts]
  have hsame : ∀ m ∈ c.methods.filter b.target.accepts, rework settings handlers a c.name
      (c.methods.filter a.target.accepts) m = m := by
    intro m hm
    obtain ⟨hm, hb⟩ := List.mem_filter.1 hm
    exact rework_of_not_accepts (Bool.eq_false_iff.2 fun ha => h ⟨m, hm, ha, hb⟩)
  exact (List.map_congr_left hsame).trans (List.map_id _)

theorem cls_weaveOne_weaveOne (h : ¬ Meet c a b) :
    (weaveOne settings handlers (weaveOne settings handlers c i a).1 j b).1 =
      { c with methods := c.methods.map (rework settings handlers b c.name (own b c) ∘
          rework settings handlers a c.name (own a c)) } := by
  rw [weaveOne_eq.1, own_weaveOne h, name_weaveOne, weaveOne_eq.1]
  simp only [List.map_map]

/-- Neighbours without a common method do the same in either order. -/
theorem weaveOne_comm (settings : Settings) (handlers : HandlerProvider) (i j : Nat)
    (h : ¬ Meet c a b) :
    (weaveOne settings handlers (weaveOne settings handlers c i a).1 j b).1 =
        (weaveOne settings handlers (weaveOne settings handlers c j b).1 i a).1 ∧
      (weaveOne settings handlers (weaveOne settings handlers c i a).1 j b).2.1 =
        (weaveOne settings handlers c j b).2.1 := by
  refine ⟨?_, ?_⟩
  · rw [cls_weaveOne_weaveOne h, cls_weaveOne_weaveOne fun hmeet => h hmeet.symm]
    congr 1
    apply List.map_congr_left
    intro m hm
    exact rework_comm h hm
  · rw [weaveOne_eq.2, weaveOne_eq.2, own_weaveOne h, name_weaveOne]

/-- Exchanging neighbours that do not meet changes neither the class nor what is said of a
directive. -/
theorem weaveInOrder_exchanged (settings : Settings) (handlers : HandlerProvider)
    {apart : Directive → Directive → Prop} (h : Exchanged apart l l')
    (hapart : ∀ a b, apart a b → ¬ Meet c a b) :
    (weaveInOrder settings handlers c (l.map fun d => (d, 0))).cls =
        (weaveInOrder settings handlers c (l'.map fun d => (d, 0))).cls ∧
      ∀ d, (weaveInOrder settings handlers c (l.map fun d => (d, 0))).outcomes.filter
          (fun o => o.directive = d) =
        (weaveInOrder settings handlers c (l'.map fun d => (d, 0))).outcomes.filter
          fun o => o.directive = d := by
  induction h generalizing c with
  | refl l => exact ⟨rfl, fun _ => rfl⟩
  | cons a h ih =>
    obtain ⟨hcls, houtcomes⟩ := ih (c := (weaveOne settings handlers c 0 a).1) fun a b hab hmeet =>
      hapart a b hab (meet_weaveOne.1 hmeet)
    refine ⟨hcls, ?_⟩
    intro d
    rw [List.map_cons, List.map_cons, outcomes_weaveInOrder_cons, outcomes_weaveInOrder_cons,
      List.filter_cons, List.filter_cons, houtcomes]
  | @swap a b h l =>
    have hab := hapart a b h
    obtain ⟨hcls, hb⟩ := weaveOne_comm settings handlers 0 0 hab
    obtain ⟨-, ha⟩ := weaveOne_comm settings handlers 0 0
      fun hmeet => hab hmeet.symm
    simp only [List.map_cons, cls_weaveInOrder_cons, outcomes_weaveInOrder_cons, hcls, ha, hb]
    refine ⟨trivial, ?_⟩
    intro d
    by_cases hsame : a = b
    · rw [hsame]
    -- of two different directives only one is asked for
    by_cases had : a = d
    · have hbd : b ≠ d := fun hbd => hsame (had.trans hbd.symm)
      simp [directive_weaveOne, had, hbd]
    · simp only [List.filter_cons, directive_weaveOne, had, decide_false, Bool.false_eq_true,
        if_false]
  | trans h h' ih ih' =>
    obtain ⟨hcls, houtcomes⟩ := ih hapart
    obtain ⟨hcls', houtcomes'⟩ := ih' hapart
    exact ⟨hcls.trans hcls', fun d => (houtcomes d).trans (houtcomes' d)⟩

/-- Directives may be woven in any order, as long as those with a common method come in the same
order: the class is the same, and so is what becomes of each directive. -/
theorem reordered_weaving_agrees {ds ds' : List Directive} (hc : c.woven = false)
    (hperm : ds.Perm ds')
    (horder : ∀ a b, Meet c a b →
      (inWeavingOrder Directive.priority ds).filter (fun d => d = a ∨ d = b) =
        (inWeavingOrder Directive.priority ds').filter fun d => d = a ∨ d = b) :
    (weave settings handlers c ds).cls = (weave settings handlers c ds').cls ∧
      ∀ d, ((weave settings handlers c ds).outcomes.filter
          fun o => o.directive = d).map Outcome.unplaced =
        ((weave settings handlers c ds').outcomes.filter
          fun o => o.directive = d).map Outcome.unplaced := by
  have hexchanged : Exchanged (fun a b => ¬ Meet c a b) (inWeavingOrder Directive.priority ds)
      (inWeavingOrder Directive.priority ds') := by
    apply Exchanged.of_filter
    · exact inWeavingOrder_perm.trans (hperm.trans inWeavingOrder_perm.symm)
    · intro a b hab
      exact horder a b (not_not.1 hab)
  obtain ⟨hcls, houtcomes⟩ := weaveInOrder_exchanged settings handlers hexchanged fun _ _ hab => hab
  have hplaces (l : List Directive) : (weavingOrder l).map Prod.fst =
      ((inWeavingOrder Directive.priority l).map fun d => (d, 0)).map Prod.fst := by
    rw [map_fst_weavingOrder, List.map_map]
    exact (List.map_id _).symm
  have hrun (l : List Directive) := weaveInOrder_congr settings handlers c (hplaces l)
  rw [(weave_of_unwoven hc).1, (weave_of_unwoven hc).1, (weave_of_unwoven hc).2,
    (weave_of_unwoven hc).2, (hrun ds).1, (hrun ds').1, hcls]
  refine ⟨rfl, ?_⟩
  intro d
  have hkept (os : List Outcome) : (os.filter fun o => o.directive = d).map Outcome.unplaced =
      (os.map Outcome.unplaced).filter fun o => o.directive = d := by
    rw [List.filter_map]
    rfl
  rw [hkept, hkept, (hrun ds).2, (hrun ds').2, ← hkept, ← hkept, houtcomes]

def pairedClass : ClassDefinition :=
  { guardedClass with methods := [guardedMethod, { guardedMethod with name := .get }] }

/-- The same as the other one does, to another method. -/
def secondGuard : Directive := { guardDirective with target := ⟨.get, none⟩ }

theorem not_meet_secondGuard : ¬ Meet pairedClass guardDirective secondGuard := by
  rintro ⟨m, hm, hfirst, hsecond⟩
  simp only [pairedClass, List.mem_cons, List.not_mem_nil, or_false] at hm
  rcases hm with rfl | rfl
  · exact absurd hsecond (by decide)
  · exact absurd hfirst (by decide)

theorem pairedClass_reordered :
    (weaveOne .standard guardProvider pairedClass 0 guardDirective).2.1.status = .applied ∧
      (weaveOne .standard guardProvider pairedClass 0 secondGuard).2.1.status = .applied ∧
      (weave .standard guardProvider pairedClass [guardDirective, secondGuard]).cls =
        (weave .standard guardProvider pairedClass [secondGuard, guardDirective]).cls := by
  refine ⟨by decide +kernel, by decide +kernel, (reordered_weaving_agrees rfl (.swap _ _ _) ?_).1⟩
  intro a b hmeet
  rw [inWeavingOrder_of_pairwise (by decide), inWeavingOrder_of_pairwise (by decide)]
  -- two directives that are both listed do not meet
  by_cases hfirst : guardDirective = a ∨ guardDirective = b
  · by_cases hsecond : secondGuard = a ∨ secondGuard = b
    · have hne : guardDirective ≠ secondGuard := by decide
      rcases hfirst with rfl | rfl <;> rcases hsecond with hsecond | hsecond
      · exact absurd hsecond.symm hne
      · subst hsecond
        exact absurd hmeet not_meet_secondGuard
      · subst hsecond
        exact absurd hmeet.symm not_meet_secondGuard
      · exact absurd hsecond.symm hne
    · simp [hfirst, hsecond]
  · simp [List.filter_cons, hfirst]

end Weaver

end CodeWeaving
