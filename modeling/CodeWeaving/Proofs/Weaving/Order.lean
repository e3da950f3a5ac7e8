import CodeWeaving.Weaving.Directive

/-! Weaving order: the one order by falling priority in which equal priorities keep their places. -/
namespace CodeWeaving

variable {α β : Type} {priority : α → Int32} {place : α → Nat} {ds : List α}

/-- The first is to be woven before the second. -/
def Precedes (priority : α → Int32) (place : α → Nat) (a b : α) : Prop :=
  priority b < priority a ∨ priority a = priority b ∧ place a < place b

theorem Precedes.asymm {a b : α} (h : Precedes priority place a b) :
    ¬ Precedes priority place b a := by
  simp only [Precedes, Int32.lt_iff_toInt_lt, ← Int32.toInt_inj] at h ⊢
  omega

theorem inWeavingOrder_perm : (inWeavingOrder priority ds).Perm ds := List.mergeSort_perm _ _

/-- Directives that come with rising places are put in order. -/
theorem pairwise_inWeavingOrder (h : ds.Pairwise (place · < place ·)) :
    (inWeavingOrder priority ds).Pairwise (Precedes priority place) := by
  have trans (a b c : α) : decide (priority b ≤ priority a) → decide (priority c ≤ priority b) →
      decide (priority c ≤ priority a) := by
    simp only [decide_eq_true_eq, Int32.le_iff_toInt_le]
    omega
  have total (a b : α) : decide (priority b ≤ priority a) || decide (priority a ≤ priority b) := by
    simp only [Bool.or_eq_true, decide_eq_true_eq, Int32.le_iff_toInt_le]
    omega
  induction ds with
  | nil => simp [inWeavingOrder]
  | cons a ds ih =>
    obtain ⟨hplace, hds⟩ := List.pairwise_cons.1 h
    -- where the first directive goes among the others
    obtain ⟨before, after, hcons, hrest, hhigher⟩ := List.mergeSort_cons trans total a ds
    have hsorted := List.pairwise_mergeSort trans total (a :: ds)
    rw [hcons] at hsorted
    have hmem {b : α} (hb : b ∈ before ++ after) : b ∈ ds := by
      rwa [← hrest, List.mem_mergeSort] at hb
    have hordered : (before ++ after).Pairwise (Precedes priority place) := hrest ▸ ih hds
    obtain ⟨hbefore, hafter, hcross⟩ := List.pairwise_append.1 hordered
    obtain ⟨-, hlower, -⟩ := List.pairwise_append.1 hsorted
    rw [inWeavingOrder, hcons, List.pairwise_append, List.pairwise_cons]
    refine ⟨hbefore, ⟨fun b hb => ?_, hafter⟩, fun b hb c hc => ?_⟩
    · have hle := of_decide_eq_true ((List.pairwise_cons.1 hlower).1 b hb)
      have hlt := hplace b (hmem (List.mem_append_right _ hb))
      simp only [Precedes, Int32.lt_iff_toInt_lt, ← Int32.toInt_inj, Int32.le_iff_toInt_le] at hle ⊢
      omega
    · rcases List.mem_cons.1 hc with rfl | hc
      · have hlt := hhigher b hb
        simp only [Bool.not_eq_true', decide_eq_false_iff_not, Int32.le_iff_toInt_le] at hlt
        exact .inl (Int32.lt_iff_toInt_lt.2 (by omega))
      · exact hcross b hb c hc

/-- There is no other order. -/
theorem eq_inWeavingOrder {l : List α} (h : ds.Pairwise (place · < place ·)) (hperm : l.Perm ds)
    (hl : l.Pairwise (Precedes priority place)) : l = inWeavingOrder priority ds :=
  List.Perm.eq_of_pairwise (fun _ _ _ _ hab hba => absurd hba hab.asymm) hl
    (pairwise_inWeavingOrder h) (hperm.trans inWeavingOrder_perm.symm)

/-- Leaving directives out does not change the order of the others. -/
theorem inWeavingOrder_filter (h : ds.Pairwise (place · < place ·)) (keep : α → Bool) :
    inWeavingOrder priority (ds.filter keep) = (inWeavingOrder priority ds).filter keep :=
  (eq_inWeavingOrder (h.sublist List.filter_sublist) (inWeavingOrder_perm.filter keep)
    ((pairwise_inWeavingOrder h).sublist List.filter_sublist)).symm

theorem inWeavingOrder_map {f : β → α} {ds : List β} :
    inWeavingOrder priority (ds.map f) = (inWeavingOrder (priority ∘ f) ds).map f := by
  refine Eq.symm (List.map_mergeSort ?_)
  intros
  rfl

end CodeWeaving
