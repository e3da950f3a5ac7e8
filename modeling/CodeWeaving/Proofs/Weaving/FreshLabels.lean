import CodeWeaving.Proofs.Depth.Labels

/-! Labels counted up from the first free one: all different as long as there are no more of them
than numbers, and new to the code as long as they do not come round to its labels. Where sums are
checked they never do: counting ends at the last label. -/
namespace CodeWeaving

instance lawfulOrderMax_uInt32 : Std.LawfulOrderMax UInt32 := .of_max_le_iff
  (fun a b c => by
    change (if a ≤ b then b else a) ≤ c ↔ _
    simp only [UInt32.le_iff_toNat_le]
    split <;> omega)
  fun a b => by
    change (if a ≤ b then b else a) = a ∨ (if a ≤ b then b else a) = b
    split <;> simp

namespace Label

variable {first l : Label} {n : Nat}

/-- How many labels on from the first one another is. -/
def distance (first l : Label) : Nat := (l.id - first.id).toNat

/-- As many labels as given, one after another. -/
def run (first : Label) : Nat → List Label
  | 0 => []
  | n + 1 => first :: run first.next n

theorem distance_eq (first l : Label) :
    first.distance l = (2 ^ 32 - first.id.toNat + l.id.toNat) % 2 ^ 32 := by
  rw [distance, UInt32.toNat_sub]

theorem toNat_lt (l : Label) : l.id.toNat < 2 ^ 32 := UInt32.toNat_lt _

theorem toNat_next (l : Label) : l.next.id.toNat = (l.id.toNat + 1) % 2 ^ 32 := by
  rw [next, UInt32.toNat_add]
  rfl

theorem eq_of_toNat {k : Label} (h : l.id.toNat = k.id.toNat) : l = k := by
  obtain ⟨l⟩ := l
  obtain ⟨k⟩ := k
  obtain rfl := UInt32.toNat_inj.1 h
  rfl

theorem next?_eq_none : l.next? = none ↔ l = last := by
  unfold next?
  split <;> simp_all

theorem next?_eq_some {k : Label} : l.next? = some k ↔ l ≠ last ∧ k = l.next := by
  unfold next?
  split <;> simp_all [eq_comm]

/-- What is less than the first label comes round only after the last one. -/
theorem distance_last_lt (h : l.id < first.id) : first.distance last < first.distance l := by
  have hlast : last.id.toNat = 2 ^ 32 - 1 := rfl
  have hfirst := first.toNat_lt
  have hlt := UInt32.lt_iff_toNat_lt.1 h
  rw [distance_eq, distance_eq, hlast]
  omega

theorem distance_eq_zero : first.distance l = 0 ↔ l = first := by
  have hfirst := first.toNat_lt
  have hl := l.toNat_lt
  rw [distance_eq]
  refine ⟨fun h => eq_of_toNat (by omega), fun h => ?_⟩
  subst h
  omega

theorem distance_of_ne (h : l ≠ first) : first.distance l = first.next.distance l + 1 := by
  have hfirst := first.toNat_lt
  have hl := l.toNat_lt
  have hne : l.id.toNat ≠ first.id.toNat := fun heq => h (eq_of_toNat heq)
  rw [distance_eq, distance_eq, toNat_next]
  omega

theorem distance_next_self : first.next.distance first = 2 ^ 32 - 1 := by
  have hfirst := first.toNat_lt
  rw [distance_eq, toNat_next]
  omega

@[simp] theorem length_run : (first.run n).length = n := by
  induction n generalizing first with
  | zero => rfl
  | succ n ih => rw [run, List.length_cons, ih]

theorem mem_run : l ∈ first.run n ↔ first.distance l < n := by
  induction n generalizing first with
  | zero => simp [run]
  | succ n ih =>
    rw [run, List.mem_cons, ih]
    by_cases hl : l = first
    · simp [hl, distance_eq_zero.2]
    · rw [distance_of_ne hl]
      simp [hl]

/-- A run comes round to where it started after as many labels as there are. -/
theorem nodup_run : (first.run n).Nodup ↔ n ≤ 2 ^ 32 := by
  induction n generalizing first with
  | zero => simp [run]
  | succ n ih =>
    rw [run, List.nodup_cons, ih, mem_run, distance_next_self]
    omega

end Label

namespace Code

variable {code : Code} {n : Nat}

/-- Labels that code places or branches to, in program order. -/
def labels (code : Code) : List Label := code.filterMap Instruction.label?

theorem mem_labels {l : Label} : l ∈ code.labels ↔ ∃ i ∈ code, i.label? = some l :=
  List.mem_filterMap

theorem mem_labels_of_mem_placed {l : Label} (h : l ∈ code.placed) : l ∈ code.labels :=
  mem_labels.2 ⟨_, mem_placed.1 h, rfl⟩

theorem greatestLabel?_eq_none : code.greatestLabel? = none ↔ code.labels = [] := by
  rw [greatestLabel?, Option.map_eq_none_iff, List.max?_eq_none_iff, List.map_eq_nil_iff, labels]

theorem greatestLabel?_eq_some {l : Label} : code.greatestLabel? = some l ↔
    l ∈ code.labels ∧ ∀ k ∈ code.labels, k.id.toNat ≤ l.id.toNat := by
  rw [greatestLabel?, Option.map_eq_some_iff]
  constructor
  · rintro ⟨id, hmax, rfl⟩
    obtain ⟨hmem, hle⟩ := List.max?_eq_some_iff.1 hmax
    obtain ⟨l, hl, rfl⟩ := List.mem_map.1 hmem
    exact ⟨hl, fun k hk => UInt32.le_iff_toNat_le.1 (hle _ (List.mem_map_of_mem hk))⟩
  · rintro ⟨hl, hle⟩
    refine ⟨l.id, List.max?_eq_some_iff.2 ⟨List.mem_map_of_mem hl, fun id hid => ?_⟩, rfl⟩
    obtain ⟨k, hk, rfl⟩ := List.mem_map.1 hid
    exact UInt32.le_iff_toNat_le.2 (hle k hk)

/-- The first free label is after the last one that there is. -/
theorem freeLabel_cases : code.freeLabel = ⟨0⟩ ∧ code.labels = [] ∨
    ∃ l ∈ code.labels, code.freeLabel = l.next ∧ ∀ k ∈ code.labels, k.id.toNat ≤ l.id.toNat := by
  cases h : code.greatestLabel? with
  | none => exact .inl ⟨by rw [freeLabel, h], greatestLabel?_eq_none.1 h⟩
  | some l =>
    obtain ⟨hl, hle⟩ := greatestLabel?_eq_some.1 h
    exact .inr ⟨l, hl, by rw [freeLabel, h], hle⟩

/-- The first free label is above all others unless there is none above. -/
theorem lt_freeLabel_iff : (∀ l ∈ code.labels, l.id < code.freeLabel.id) ↔
    Label.last ∉ code.labels := by
  constructor
  · intro h hlast
    have hlt := UInt32.lt_iff_toNat_lt.1 (h _ hlast)
    have hmax : Label.last.id.toNat = 2 ^ 32 - 1 := rfl
    have hfree := code.freeLabel.toNat_lt
    omega
  · intro hlast k hk
    rw [UInt32.lt_iff_toNat_lt]
    rcases code.freeLabel_cases with ⟨-, hnone⟩ | ⟨l, hl, hfree, hle⟩
    · rw [hnone] at hk
      cases hk
    · have hne : l.id.toNat ≠ 2 ^ 32 - 1 := fun hmax =>
        hlast (Label.eq_of_toNat (k := Label.last) hmax ▸ hl)
      have hlt := l.toNat_lt
      have hk := hle k hk
      rw [hfree, Label.toNat_next]
      omega

theorem freeLabel?_eq_none : code.freeLabel? = none ↔ Label.last ∈ code.labels := by
  cases h : code.greatestLabel? with
  | none => simp [freeLabel?, h, greatestLabel?_eq_none.1 h]
  | some l =>
    obtain ⟨hl, hle⟩ := greatestLabel?_eq_some.1 h
    rw [freeLabel?, h, Label.next?_eq_none]
    constructor
    · rintro rfl
      exact hl
    · intro hlast
      have hmax : Label.last.id.toNat = 2 ^ 32 - 1 := rfl
      have hge := hle _ hlast
      have hlt := l.toNat_lt
      exact Label.eq_of_toNat (by omega)

theorem freeLabel?_eq_some {l : Label} :
    code.freeLabel? = some l ↔ Label.last ∉ code.labels ∧ l = code.freeLabel := by
  rw [← freeLabel?_eq_none, ← ne_eq, Option.ne_none_iff_exists']
  cases h : code.greatestLabel? with
  | none => simp [freeLabel?, freeLabel, h, eq_comm]
  | some k => simp [freeLabel?, freeLabel, h, Label.next?_eq_some]

/-- As long as counting does not pass the last label, it does not come round to those of the
code. -/
theorem le_distance_of_last (hlast : Label.last ∉ code.labels)
    (hn : Label.last ∉ code.freeLabel.run n) :
    ∀ l ∈ code.labels, n ≤ code.freeLabel.distance l := by
  intro l hl
  rw [Label.mem_run, Nat.not_lt] at hn
  exact Nat.le_trans hn (Nat.le_of_lt (Label.distance_last_lt (lt_freeLabel_iff.2 hlast l hl)))

/-- Counting passes the last label only if so many are not left. -/
theorem last_notMem_run (hn : n < 2 ^ 32) (h : ∀ l ∈ code.labels, l.id.toNat + n < 2 ^ 32 - 1) :
    Label.last ∉ code.freeLabel.run n := by
  have hmax : Label.last.id.toNat = 2 ^ 32 - 1 := rfl
  rw [Label.mem_run, Nat.not_lt, Label.distance_eq, hmax]
  rcases code.freeLabel_cases with ⟨hfree, -⟩ | ⟨l, hl, hfree, -⟩
  · have hzero : code.freeLabel.id.toNat = 0 := congrArg (fun l => l.id.toNat) hfree
    omega
  · have hl := h l hl
    rw [hfree, Label.toNat_next]
    omega

/-- So many labels are free above those of the code. -/
theorem le_distance_freeLabel (h : ∀ l ∈ code.labels, l.id.toNat + n < 2 ^ 32) :
    ∀ l ∈ code.labels, n ≤ code.freeLabel.distance l := by
  intro k hk
  rcases code.freeLabel_cases with ⟨-, hnone⟩ | ⟨l, hl, hfree, hle⟩
  · rw [hnone] at hk
    cases hk
  · have hl := h l hl
    have hk := hle k hk
    rw [hfree, Label.distance_eq, Label.toNat_next]
    omega

/-- New labels are all different from each other and from those of the code. -/
theorem nodup_placed_append_run (hplaced : code.placed.Nodup)
    (hlabels : ∀ i ∈ code, ∀ l, i.label? = some l → l.id.toNat + n < 2 ^ 32 - 1)
    (hn : n ≤ 2 ^ 32) : (code.placed ++ code.freeLabel.run n).Nodup := by
  have hroom : ∀ l ∈ code.labels, l.id.toNat + n < 2 ^ 32 := fun l hl => by
    obtain ⟨i, hi, hl⟩ := mem_labels.1 hl
    have := hlabels i hi l hl
    omega
  refine List.nodup_append.2 ⟨hplaced, Label.nodup_run.2 hn, ?_⟩
  rintro l hl k hk rfl
  exact Nat.not_lt.2 (le_distance_freeLabel hroom l (mem_labels_of_mem_placed hl))
    (Label.mem_run.1 hk)

end Code

end CodeWeaving
