import CodeWeaving.Proofs.Weaving.Order
import CodeWeaving.Proofs.Weaving.Runs

/-! Directives that are not applied might as well not have been there. -/
namespace CodeWeaving

def Outcome.isApplied (o : Outcome) : Bool := o.status = .applied

/-- The outcome of the same directive in another list. -/
def Outcome.moved (f : Nat → Nat) (o : Outcome) : Outcome := { o with index := f o.index }

def Woven.applied (w : Woven) (place : Nat) : Bool :=
  w.outcomes.any fun o => o.index = place ∧ o.isApplied

theorem Woven.applied_index {w : Woven} (h : (w.outcomes.map Outcome.index).Nodup) {o : Outcome}
    (ho : o ∈ w.outcomes) : w.applied o.index = o.isApplied := by
  rw [applied, Bool.eq_iff_iff, List.any_eq_true]
  constructor
  · rintro ⟨o', ho', hsame⟩
    obtain ⟨hindex, happlied⟩ := of_decide_eq_true hsame
    rwa [← List.inj_on_of_nodup_map h ho' ho hindex]
  · exact fun happlied => ⟨o, ho, by simpa using happlied⟩

namespace Weaver

variable {settings : Settings} {handlers : HandlerProvider} {c : ClassDefinition} {d : Directive}
  {index : Nat} {ds : List (Directive × Nat)}

theorem index_weaveOne : (weaveOne settings handlers c index d).2.1.index = index := by
  unfold weaveOne
  dsimp only
  split <;> rfl

theorem weaveOne_moved (f : Nat → Nat) :
    (weaveOne settings handlers c (f index) d).1 = (weaveOne settings handlers c index d).1 ∧
      (weaveOne settings handlers c (f index) d).2.1 =
        (weaveOne settings handlers c index d).2.1.moved f := by
  unfold weaveOne
  dsimp only
  split <;> exact ⟨rfl, rfl⟩

theorem cls_weaveInOrder_cons : (weaveInOrder settings handlers c ((d, index) :: ds)).cls =
    (weaveInOrder settings handlers (weaveOne settings handlers c index d).1 ds).cls := rfl

theorem outcomes_weaveInOrder_cons :
    (weaveInOrder settings handlers c ((d, index) :: ds)).outcomes =
      (weaveOne settings handlers c index d).2.1 ::
        (weaveInOrder settings handlers (weaveOne settings handlers c index d).1 ds).outcomes := rfl

theorem map_index_weaveInOrder :
    (weaveInOrder settings handlers c ds).outcomes.map Outcome.index = ds.map Prod.snd := by
  induction ds generalizing c with
  | nil => rfl
  | cons x ds ih =>
    obtain ⟨d, index⟩ := x
    rw [outcomes_weaveInOrder_cons, List.map_cons, index_weaveOne, ih, List.map_cons]

/-- A run does without the directives that it does not apply. -/
theorem weaveInOrder_filter {keep : Nat → Bool}
    (h : ∀ o ∈ (weaveInOrder settings handlers c ds).outcomes, keep o.index = o.isApplied) :
    (weaveInOrder settings handlers c (ds.filter fun x => keep x.2)).cls =
        (weaveInOrder settings handlers c ds).cls ∧
      (weaveInOrder settings handlers c (ds.filter fun x => keep x.2)).outcomes =
        (weaveInOrder settings handlers c ds).outcomes.filter Outcome.isApplied := by
  induction ds generalizing c with
  | nil => exact ⟨rfl, rfl⟩
  | cons x ds ih =>
    obtain ⟨d, index⟩ := x
    rw [outcomes_weaveInOrder_cons] at h ⊢
    obtain ⟨hfirst, hrest⟩ := List.forall_mem_cons.1 h
    rw [index_weaveOne] at hfirst
    obtain ⟨hcls, houtcomes⟩ := ih hrest
    rw [List.filter_cons, List.filter_cons, ← hfirst]
    cases hkeep : keep index with
    | true =>
      rw [if_pos rfl, if_pos rfl, outcomes_weaveInOrder_cons, houtcomes]
      exact ⟨hcls, rfl⟩
    | false =>
      rw [hkeep] at hfirst
      have hsame : (weaveOne settings handlers c index d).1 = c :=
        (weaveOne_atomic.resolve_left fun happlied => by
          simp [Outcome.isApplied, happlied] at hfirst).1
      rw [if_neg Bool.false_ne_true, if_neg Bool.false_ne_true, cls_weaveInOrder_cons]
      rw [hsame] at hcls houtcomes ⊢
      exact ⟨hcls, houtcomes⟩

theorem weaveInOrder_moved (f : Nat → Nat) :
    (weaveInOrder settings handlers c (ds.map (Prod.map id f))).cls =
        (weaveInOrder settings handlers c ds).cls ∧
      (weaveInOrder settings handlers c (ds.map (Prod.map id f))).outcomes =
        (weaveInOrder settings handlers c ds).outcomes.map (Outcome.moved f) := by
  induction ds generalizing c with
  | nil => exact ⟨rfl, rfl⟩
  | cons x ds ih =>
    obtain ⟨d, index⟩ := x
    rw [List.map_cons, Prod.map_apply, id_eq, cls_weaveInOrder_cons, cls_weaveInOrder_cons,
      outcomes_weaveInOrder_cons, outcomes_weaveInOrder_cons, List.map_cons, (weaveOne_moved f).1,
      (weaveOne_moved f).2]
    exact ⟨ih.1, congrArg _ ih.2⟩

/-- The directives that are applied, with their places. -/
def applied (settings : Settings) (handlers : HandlerProvider) (c : ClassDefinition)
    (ds : List Directive) : List (Directive × Nat) :=
  ds.zipIdx.filter fun x => (weave settings handlers c ds).applied x.2

/-- Directives with their places, as they are woven. -/
def weavingOrder (ds : List Directive) : List (Directive × Nat) :=
  inWeavingOrder (fun x => x.1.priority) ds.zipIdx

section

variable {ds : List Directive}

theorem pairwise_zipIdx : ds.zipIdx.Pairwise (·.2 < ·.2) := by
  rw [← List.pairwise_map, List.zipIdx_map_snd]
  exact List.pairwise_lt_range'

/-- Directives in a list of their own, by the places they had in another. -/
theorem zipIdx_map_fst {kept : List (Directive × Nat)} (h : kept.Pairwise (·.2 < ·.2)) :
    (kept.map Prod.fst).zipIdx = kept.map (Prod.map id (kept.map Prod.snd).idxOf) := by
  have hnodup : (kept.map Prod.snd).Nodup := (List.pairwise_map.2 h).imp Nat.ne_of_lt
  refine List.ext_getElem (by simp) fun i hi _ => ?_
  have hlt : i < (kept.map Prod.snd).length := by simpa using hi
  have hidx := hnodup.idxOf_getElem i hlt
  rw [List.getElem_map] at hidx
  rw [List.getElem_zipIdx, List.getElem_map, List.getElem_map, Prod.map, hidx, Nat.zero_add]
  rfl

theorem weave_of_unwoven (hc : c.woven = false) :
    (weave settings handlers c ds).cls =
        (weaveInOrder settings handlers c (weavingOrder ds)).cls.markWoven ∧
      (weave settings handlers c ds).outcomes =
        (weaveInOrder settings handlers c (weavingOrder ds)).outcomes := by
  simp [weave, hc, weavingOrder]

theorem not_applied_of_woven (hc : c.woven = true) :
    ∀ o ∈ (weave settings handlers c ds).outcomes, o.isApplied = false := by
  intro o ho
  simp only [weave, hc, if_true, List.mem_map] at ho
  obtain ⟨x, -, rfl⟩ := ho
  rfl

/-- In a list of their own the directives come in the same order. -/
theorem weavingOrder_map_fst {keep : Directive × Nat → Bool} {kept : List (Directive × Nat)}
    (h : ds.zipIdx.filter keep = kept) : weavingOrder (kept.map Prod.fst) =
      ((weavingOrder ds).filter keep).map (Prod.map id (kept.map Prod.snd).idxOf) := by
  have hplaces : kept.Pairwise (·.2 < ·.2) := h ▸ pairwise_zipIdx.sublist List.filter_sublist
  rw [weavingOrder, zipIdx_map_fst hplaces, inWeavingOrder_map, weavingOrder,
    ← inWeavingOrder_filter pairwise_zipIdx, h]
  rfl

theorem applied_of_woven (hc : c.woven = true) : applied settings handlers c ds = [] := by
  refine List.filter_eq_nil_iff.2 fun x _ happlied => ?_
  obtain ⟨o, ho, hsame⟩ := List.any_eq_true.1 happlied
  have hnot := not_applied_of_woven hc o ho
  rw [(of_decide_eq_true hsame).2] at hnot
  cases hnot

theorem applied_index_of_unwoven (hc : c.woven = false) :
    ∀ o ∈ (weaveInOrder settings handlers c (weavingOrder ds)).outcomes,
      (weave settings handlers c ds).applied o.index = o.isApplied := by
  rw [← (weave_of_unwoven hc).2]
  intro o ho
  refine Woven.applied_index ?_ ho
  rw [(weave_of_unwoven hc).2, map_index_weaveInOrder, weavingOrder,
    (inWeavingOrder_perm.map _).nodup_iff, List.zipIdx_map_snd]
  exact List.nodup_range'

/-- A directive that is not applied leaves the class as it found it, so all others do the same
without it. -/
theorem weave_atomic :
    (∀ before index d, (weaveOne settings handlers before index d).2.1.status = .applied ∨
      (weaveOne settings handlers before index d).1 = before ∧
        (weaveOne settings handlers before index d).2.1.methods = [] ∧
        (weaveOne settings handlers before index d).2.1.points = 0) ∧
    (weave settings handlers c ((applied settings handlers c ds).map Prod.fst)).cls =
      (weave settings handlers c ds).cls ∧
    (weave settings handlers c ((applied settings handlers c ds).map Prod.fst)).outcomes =
      ((weave settings handlers c ds).outcomes.filter Outcome.isApplied).map
        (Outcome.moved ((applied settings handlers c ds).map Prod.snd).idxOf) := by
  refine ⟨fun _ _ _ => weaveOne_atomic, ?_⟩
  cases hc : c.woven with
  | true =>
    have hnone : (weave settings handlers c ds).outcomes.filter Outcome.isApplied = [] :=
      List.filter_eq_nil_iff.2 fun o ho => by simp [not_applied_of_woven hc o ho]
    rw [applied_of_woven hc, hnone]
    simp [weave, hc]
  | false =>
    have horder : weavingOrder ((applied settings handlers c ds).map Prod.fst) = _ :=
      weavingOrder_map_fst rfl
    have hkeep : ∀ o ∈ (weaveInOrder settings handlers c (weavingOrder ds)).outcomes,
        (weave settings handlers c ds).applied o.index = o.isApplied := applied_index_of_unwoven hc
    obtain ⟨hcls, houtcomes⟩ := weaveInOrder_filter hkeep
    simp only [(weave_of_unwoven hc).1, (weave_of_unwoven hc).2]
    rw [horder, (weaveInOrder_moved _).1, (weaveInOrder_moved _).2, hcls, houtcomes]
    exact ⟨rfl, rfl⟩

end

end Weaver

end CodeWeaving
