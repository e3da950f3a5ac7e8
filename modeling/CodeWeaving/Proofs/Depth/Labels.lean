import CodeWeaving.Code.Depth
import Mathlib.Algebra.Ring.Nat
import Mathlib.Data.List.Nodup
import Mathlib.Tactic.ByContra

/-! Labels that code places and branches to, and what the label check makes of them. -/
namespace CodeWeaving

section

variable {ε α β : Type} {x : Except ε α} {b : β}

theorem bind_eq_ok {f : α → Except ε β} : x >>= f = .ok b ↔ ∃ a, x = .ok a ∧ f a = .ok b := by
  cases x <;> simp [bind, Except.bind]

theorem bind_eq_error {f : α → Except ε β} {e : ε} :
    x >>= f = .error e ↔ x = .error e ∨ ∃ a, x = .ok a ∧ f a = .error e := by
  cases x <;> simp [bind, Except.bind]

theorem map_eq_error {f : α → β} {e : ε} : x.map f = .error e ↔ x = .error e := by
  cases x <;> simp [Except.map]

theorem mapError_eq_error {δ : Type} {f : ε → δ} {e : δ} :
    x.mapError f = .error e ↔ ∃ a, x = .error a ∧ f a = e := by
  cases x <;> simp [Except.mapError]

theorem map_eq_ok {f : α → β} : x.map f = .ok b ↔ ∃ a, x = .ok a ∧ f a = b := by
  cases x <;> simp [Except.map]

end

/-- The label that an instruction places. -/
def Instruction.placed? : Instruction → Option Label
  | .label l => some l
  | _ => none

theorem Instruction.placed?_eq_some {i : Instruction} {l : Label} :
    i.placed? = some l ↔ i = .label l := by
  cases i <;> simp [Instruction.placed?]

namespace Code

variable {code code' : Code} {l : Label} {known labels : LabelMap} {e : AnalysisError}
  {index p : Nat}

/-- Labels placed, in program order. -/
def placed (code : Code) : List Label := code.filterMap Instruction.placed?

/-- Labels branched to, in program order. -/
def targets (code : Code) : List Label := code.filterMap Instruction.target?

@[simp] theorem placed_append : (code ++ code').placed = code.placed ++ code'.placed :=
  List.filterMap_append

@[simp] theorem targets_append : (code ++ code').targets = code.targets ++ code'.targets :=
  List.filterMap_append

theorem placed_cons {i : Instruction} :
    placed (i :: code) = i.placed?.toList ++ code.placed := by
  cases h : i.placed? <;> simp [placed, h]

theorem targets_cons {i : Instruction} :
    targets (i :: code) = i.target?.toList ++ code.targets := by
  cases h : i.target? <;> simp [targets, h]

theorem mem_placed : l ∈ code.placed ↔ .label l ∈ code := by
  simp [placed, Instruction.placed?_eq_some]

theorem mem_placed_iff_getElem? :
    l ∈ code.placed ↔ ∃ p : Nat, code[p]? = some (.label l) := by
  rw [mem_placed, List.mem_iff_getElem?]

theorem mem_placed_or_mem_targets {i : Instruction} (hi : i ∈ code) (hl : i.label? = some l) :
    l ∈ code.placed ∨ l ∈ code.targets := by
  simp only [placed, targets, List.mem_filterMap]
  cases i <;> simp_all only [Instruction.label?, Option.some.injEq, reduceCtorEq]
  · exact .inr ⟨_, hi, rfl⟩
  · exact .inl ⟨_, hi, rfl⟩

theorem mem_targets : l ∈ code.targets ↔ ∃ i ∈ code, i.target? = some l := by
  simp [targets]

/-- The labels placed, each with its index; the first instruction has the index given. -/
def placements (index : Nat) : Code → LabelMap
  | [] => []
  | i :: code =>
    (i.placed?.map fun l => (l, index)).toList ++ placements (index + 1) code

theorem map_fst_placements : (code.placements index).map Prod.fst = code.placed := by
  induction code generalizing index with
  | nil => rfl
  | cons i code ih => cases h : i.placed? <;> simp [placements, placed, h, ih]

theorem mem_placements :
    (l, p) ∈ code.placements index ↔ index ≤ p ∧ code[p - index]? = some (.label l) := by
  induction code generalizing index with
  | nil => simp [placements]
  | cons i code ih =>
    have hhead : (l, p) ∈ (i.placed?.map fun l => (l, index)).toList ↔
        p = index ∧ i = .label l := by
      rw [← Instruction.placed?_eq_some]
      cases i.placed? <;> simp [and_comm, eq_comm]
    rw [placements, List.mem_append, hhead, ih]
    by_cases hp : p = index
    · subst hp
      simp [show ¬ p + 1 ≤ p by omega]
    · by_cases hlt : index ≤ p
      · have hsucc : p - index = p - (index + 1) + 1 := by omega
        rw [hsucc, List.getElem?_cons_succ]
        simp [hp, show index + 1 ≤ p by omega, hlt]
      · simp [hp, hlt, show ¬ index + 1 ≤ p by omega]

theorem find?_eq_none_iff : labels.find? l = none ↔ l ∉ labels.map Prod.fst := by
  rw [LabelMap.find?, List.lookup_eq_none_iff]
  simp only [bne_iff_ne, ne_eq, List.mem_map, not_exists, not_and]
  exact forall₂_congr fun a _ => not_congr eq_comm

theorem find?_eq_some_iff (h : (labels.map Prod.fst).Nodup) :
    labels.find? l = some p ↔ (l, p) ∈ labels := by
  rw [LabelMap.find?, List.lookup_eq_some_iff]
  constructor
  · rintro ⟨before, after, rfl, -⟩
    simp
  · intro hmem
    obtain ⟨before, after, rfl⟩ := List.append_of_mem hmem
    refine ⟨before, after, rfl, ?_⟩
    intro x hx
    simp only [List.map_append, List.map_cons, List.nodup_append, List.nodup_cons,
      List.mem_map, List.mem_cons] at h
    have := h.2.2 x.1 ⟨x, hx, rfl⟩ l (Or.inl rfl)
    simpa using this.symm

/-- The scan adds every label where it stands, as long as none comes twice. -/
theorem placeLabels_eq_ok_iff (hk : (known.map Prod.fst).Nodup) :
    placeLabels known index code = .ok labels ↔
      labels = known ++ code.placements index ∧ (labels.map Prod.fst).Nodup := by
  induction code generalizing known index with
  | nil =>
    simp only [placeLabels, placements, List.append_nil, Except.ok.injEq]
    exact ⟨fun h => ⟨h.symm, h ▸ hk⟩, fun h => h.1.symm⟩
  | cons i code ih =>
    cases hi : i.placed? with
    | none =>
      have hscan : placeLabels known index (i :: code) = placeLabels known (index + 1) code := by
        cases i <;> simp_all [placeLabels, Instruction.placed?]
      rw [hscan, ih hk]
      simp [placements, hi]
    | some l =>
      obtain rfl := Instruction.placed?_eq_some.1 hi
      simp only [placeLabels]
      cases hl : known.find? l with
      | none =>
        have hnew : ((known ++ [(l, index)]).map Prod.fst).Nodup := by
          rw [find?_eq_none_iff] at hl
          simp only [List.map_append, List.map_cons, List.map_nil]
          exact List.nodup_append.2 ⟨hk, List.nodup_singleton _, by
            rintro a ha b hb rfl
            exact hl (List.mem_singleton.1 hb ▸ ha)⟩
        simp only
        rw [ih hnew]
        simp [placements, Instruction.placed?]
      | some p =>
        simp only [reduceCtorEq, false_iff, not_and]
        rintro rfl hnodup
        have hmem : l ∈ known.map Prod.fst := by
          by_contra hn
          rw [find?_eq_none_iff.2 hn] at hl
          cases hl
        simp only [placements, Instruction.placed?, Option.map_some, Option.toList_some,
          List.map_append, List.map_cons, List.map_nil, List.nodup_append] at hnodup
        exact hnodup.2.2 l hmem l (by simp) rfl

theorem placeLabels_eq_error (h : placeLabels known index code = .error e) :
    ∃ l, e = .duplicateLabel l := by
  fun_induction placeLabels known index code with
  | case1 => cases h
  | case2 _ _ l =>
    cases h
    exact ⟨l, rfl⟩
  | case3 _ _ _ _ _ ih => exact ih h
  | case4 _ _ _ _ _ ih => exact ih h

/-- A label map that says of every label where it is placed. -/
def Located (code : Code) (labels : LabelMap) : Prop :=
  ∀ l p, labels.find? l = some p ↔ code[p]? = some (.label l)

/-- The check passes when no label is placed twice and no branch goes astray. -/
theorem checkLabels_eq_ok_iff :
    code.checkLabels = .ok labels ↔
      labels = code.placements 0 ∧ code.placed.Nodup ∧ ∀ l ∈ code.targets, l ∈ code.placed := by
  have hscan : placeLabels [] 0 code = .ok labels ↔
      labels = [] ++ code.placements 0 ∧ (labels.map Prod.fst).Nodup :=
    placeLabels_eq_ok_iff List.nodup_nil
  cases hp : placeLabels [] 0 code with
  | error e =>
    simp only [checkLabels, hp, bind, Except.bind, reduceCtorEq, false_iff]
    rintro ⟨rfl, hnodup, -⟩
    rw [hp, map_fst_placements] at hscan
    simpa using hscan.2 ⟨rfl, hnodup⟩
  | ok m =>
    have hm := (placeLabels_eq_ok_iff (by simp)).1 hp
    rw [List.nil_append, and_congr_right_iff.2 (fun h => by rw [h, map_fst_placements])] at hm
    obtain ⟨rfl, hnodup⟩ := hm
    have hnone (l : Label) :
        (LabelMap.find? (code.placements 0) l).isNone = true ↔ l ∉ code.placed := by
      rw [Option.isNone_iff_eq_none, find?_eq_none_iff, map_fst_placements]
    simp only [checkLabels, hp, bind, Except.bind, undefinedTarget?]
    split
    · rename_i l hl
      simp only [reduceCtorEq, false_iff]
      rintro ⟨-, -, htargets⟩
      have hfound : (LabelMap.find? (code.placements 0) l).isNone = true :=
        List.find?_some (p := fun l => (LabelMap.find? _ l).isNone) hl
      exact (hnone l).1 hfound (htargets l (List.mem_of_find?_eq_some hl))
    · rename_i hl
      rw [List.find?_eq_none] at hl
      simp only [Except.ok.injEq]
      constructor
      · rintro rfl
        refine ⟨rfl, hnodup, ?_⟩
        intro l hmem
        by_contra hno
        exact hl l hmem ((hnone l).2 hno)
      · rintro ⟨rfl, -⟩
        rfl

theorem checkLabels_eq_error (h : code.checkLabels = .error e) :
    ∃ l, e = .duplicateLabel l ∨ e = .undefinedLabel l := by
  unfold checkLabels at h
  cases hp : placeLabels [] 0 code with
  | error e' =>
    rw [hp] at h
    cases h
    obtain ⟨l, rfl⟩ := placeLabels_eq_error hp
    exact ⟨l, Or.inl rfl⟩
  | ok m =>
    rw [hp] at h
    simp only [bind, Except.bind] at h
    split at h
    · rename_i l _
      cases h
      exact ⟨l, Or.inr rfl⟩
    · cases h

theorem located_of_checkLabels (h : code.checkLabels = .ok labels) : code.Located labels := by
  obtain ⟨rfl, hnodup, -⟩ := checkLabels_eq_ok_iff.1 h
  intro l p
  rw [find?_eq_some_iff (by rwa [map_fst_placements]), mem_placements]
  simp

theorem exists_checkLabels_iff :
    (∃ labels, code.checkLabels = .ok labels) ↔
      code.placed.Nodup ∧ ∀ l ∈ code.targets, l ∈ code.placed := by
  simp only [checkLabels_eq_ok_iff, exists_eq_left]

end Code

end CodeWeaving
