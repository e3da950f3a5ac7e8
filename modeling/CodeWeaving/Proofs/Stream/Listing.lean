import CodeWeaving.Code.Stream
import CodeWeaving.Proofs.Depth.Labels

/-! The entries of a stream as a list: where an anchor's instruction stands in it, and what each
operation makes of it. -/
namespace CodeWeaving

namespace Code

variable {first : Nat} {code : Code}

theorem getElem?_numbered (p : Nat) :
    (code.numbered first)[p]? = code[p]?.map fun i => (first + p, i) := by
  induction code generalizing first p with
  | nil => rfl
  | cons i code ih =>
    cases p with
    | zero => rfl
    | succ p =>
      simp [numbered, ih, Nat.add_assoc, Nat.add_comm 1]

theorem getElem?_numbered_zero {p : Nat} {entry : Nat × Instruction} :
    (code.numbered 0)[p]? = some entry ↔ ∃ i, code[p]? = some i ∧ entry = (p, i) := by
  rw [getElem?_numbered, Option.map_eq_some_iff, Nat.zero_add]
  simp only [eq_comm]

theorem length_numbered : (code.numbered first).length = code.length := by
  have := congrArg List.length (map_snd_numbered first code)
  simpa using this

theorem numbered_append {code' : Code} : (code ++ code').numbered first =
    code.numbered first ++ code'.numbered (first + code.length) := by
  induction code generalizing first with
  | nil => rfl
  | cons i code ih => simp [numbered, ih, Nat.add_assoc, Nat.add_comm 1]

theorem mem_numbered {n : Nat} {i : Instruction} :
    (n, i) ∈ code.numbered first ↔ ∃ p, code[p]? = some i ∧ first + p = n := by
  rw [List.mem_iff_getElem?]
  refine exists_congr fun p => ?_
  rw [getElem?_numbered]
  cases code[p]? <;> simp [and_comm]

theorem le_of_mem_numbered {n : Nat} {i : Instruction} (h : (n, i) ∈ code.numbered first) :
    first ≤ n := by
  obtain ⟨p, -, rfl⟩ := mem_numbered.1 h
  omega

end Code

namespace CodeStream

/-- The anchor is that of an instruction in the stream. -/
def Names (s : CodeStream) (a : Anchor) (i : Instruction) : Prop :=
  a.stream = s.id ∧ (a.index, i) ∈ s.entries

variable {s : CodeStream} {a : Anchor} {i : Instruction}
  {before after : List (Nat × Instruction)}

/-- No two instructions have the same number. -/
theorem ne_of_split {n : Nat} (h : s.entries = before ++ (n, i) :: after) :
    ∀ e, e ∈ before ∨ e ∈ after → e.1 ≠ n := by
  intro e he heq
  have hnodup := s.nodup
  rw [h, List.map_append, List.map_cons, List.nodup_append, List.nodup_cons] at hnodup
  rcases he with he | he
  · exact hnodup.2.2 _ (List.mem_map_of_mem he) _ List.mem_cons_self heq
  · exact hnodup.2.1.1 (List.mem_map.2 ⟨e, he, heq⟩)

theorem lists (s : CodeStream) : s.arena.Lists s.entries := s.linked

theorem live?_eq_some {n : Nat} : s.arena.live? n = some i ↔ (n, i) ∈ s.entries :=
  s.linked.live_iff n i

theorem exists_check (h : s.Names a i) :
    ∃ hlive : (s.arena.live? a.index).isSome, s.check a = .ok ⟨a.index, hlive⟩ := by
  have hlive : (s.arena.live? a.index).isSome := by
    rw [live?_eq_some.2 h.2]
    rfl
  exact ⟨hlive, by rw [check, if_pos h.1, dif_pos hlive]⟩

theorem Names.unique {j : Instruction} (hi : s.Names a i) (hj : s.Names a j) : i = j :=
  Option.some.inj ((live?_eq_some.2 hi.2).symm.trans (live?_eq_some.2 hj.2))

theorem names_of_check {k : s.Live} (h : s.check a = .ok k) : ∃ i, s.Names a i := by
  unfold check at h
  split at h
  · rename_i hid
    split at h
    · rename_i hlive
      obtain ⟨i, hi⟩ := Option.isSome_iff_exists.1 hlive
      exact ⟨i, hid, live?_eq_some.1 hi⟩
    · split at h <;> cases h
  · cases h

theorem position_eq_ok (hid : a.stream = s.id)
    (h : s.entries = before ++ (a.index, i) :: after) : s.position a = .ok before.length := by
  obtain ⟨hlive, hcheck⟩ := exists_check (i := i) ⟨hid, by simp [h]⟩
  have hbefore : ∀ e ∈ before, (e.1 == a.index) = false := fun e he => by
    simpa using ne_of_split h e (.inl he)
  have hfind : s.entries.findIdx (·.1 == a.index) = before.length := by
    rw [h, List.findIdx_append, List.findIdx_eq_length.2 hbefore, if_neg (Nat.lt_irrefl _)]
    simp [List.findIdx_cons]
  rw [position, hcheck, ← hfind]
  rfl

theorem position_eq_ok_iff {p : Nat} :
    s.position a = .ok p ↔ a.stream = s.id ∧ ∃ i, s.entries[p]? = some (a.index, i) := by
  constructor
  · intro h
    obtain ⟨k, hcheck, -⟩ := map_eq_ok.1 h
    obtain ⟨i, hi⟩ := names_of_check hcheck
    obtain ⟨before, after, hsplit⟩ := List.append_of_mem hi.2
    have hp := (position_eq_ok hi.1 hsplit).symm.trans h
    cases hp
    exact ⟨hi.1, i, by simp [hsplit]⟩
  · rintro ⟨hid, i, hp⟩
    obtain ⟨hlt, hget⟩ := List.getElem?_eq_some_iff.1 hp
    have hsplit : s.entries = s.entries.take p ++ (a.index, i) :: s.entries.drop (p + 1) := by
      rw [← hget, ← List.drop_eq_getElem_cons hlt, List.take_append_drop]
    rw [position_eq_ok hid hsplit, List.length_take_of_le (Nat.le_of_lt hlt)]

theorem Names.position (h : s.Names a i) : ∃ p, s.position a = .ok p := by
  obtain ⟨before, after, hsplit⟩ := List.append_of_mem h.2
  exact ⟨_, position_eq_ok h.1 hsplit⟩

/-! What an operation leaves: the numbers used up, and the list with the edit made in it. -/

section Edits

variable (code : Code)

theorem exists_insertBefore (hid : a.stream = s.id)
    (h : s.entries = before ++ (a.index, i) :: after) :
    ∃ t, s.insertBefore a code = .ok t ∧ t.id = s.id ∧ t.fresh = s.fresh + code.length ∧
      t.entries = before ++ code.numbered s.fresh ++ (a.index, i) :: after := by
  obtain ⟨hlive, hcheck⟩ := exists_check (i := i) ⟨hid, by simp [h]⟩
  have hlists : s.arena.Lists (before ++ (a.index, i) :: after) := h ▸ s.lists
  refine ⟨⟨s.id, s.arena.insertBefore a.index code, s.linked.insertBefore hlive⟩, ?_, rfl,
    by simp [fresh], ?_⟩
  · rw [insertBefore, hcheck]
    rfl
  · exact hlists.insertBefore.entries_eq

theorem exists_insertAfter (hid : a.stream = s.id)
    (h : s.entries = before ++ (a.index, i) :: after) :
    ∃ t, s.insertAfter a code = .ok t ∧ t.id = s.id ∧ t.fresh = s.fresh + code.length ∧
      t.entries = before ++ (a.index, i) :: code.numbered s.fresh ++ after := by
  obtain ⟨hlive, hcheck⟩ := exists_check (i := i) ⟨hid, by simp [h]⟩
  have hlists : s.arena.Lists (before ++ (a.index, i) :: after) := h ▸ s.lists
  refine ⟨⟨s.id, s.arena.insertAfter a.index code, s.linked.insertAfter hlive⟩, ?_, rfl,
    by simp [fresh], ?_⟩
  · rw [insertAfter, hcheck]
    rfl
  · exact hlists.insertAfter.entries_eq

theorem exists_remove (hid : a.stream = s.id)
    (h : s.entries = before ++ (a.index, i) :: after) :
    ∃ t, s.remove a = .ok t ∧ t.id = s.id ∧ t.fresh = s.fresh ∧ t.entries = before ++ after := by
  obtain ⟨hlive, hcheck⟩ := exists_check (i := i) ⟨hid, by simp [h]⟩
  have hlists : s.arena.Lists (before ++ (a.index, i) :: after) := h ▸ s.lists
  refine ⟨⟨s.id, s.arena.remove a.index, s.linked.remove hlive⟩, ?_, rfl, by simp [fresh], ?_⟩
  · rw [remove, hcheck]
    rfl
  · exact hlists.remove.entries_eq

theorem exists_replace (hid : a.stream = s.id)
    (h : s.entries = before ++ (a.index, i) :: after) :
    ∃ t, s.replace a code = .ok t ∧ t.id = s.id ∧ t.fresh = s.fresh + code.length ∧
      t.entries = before ++ (code.numbered s.fresh ++ after) := by
  obtain ⟨t, ht, hid', hfresh, hentries⟩ := exists_insertBefore code hid h
  obtain ⟨u, hu, hid'', hfresh', hentries'⟩ := exists_remove (hid.trans hid'.symm) hentries
  refine ⟨u, by rw [replace, ht]; exact hu, hid''.trans hid', hfresh'.trans hfresh, ?_⟩
  rw [hentries', List.append_assoc]

end Edits

variable {id : Nat} {code : Code}

theorem entries_pushFront : (s.pushFront i).entries = (s.fresh, i) :: s.entries :=
  (Arena.Lists.pushFront s.linked).entries_eq

theorem fresh_pushFront : (s.pushFront i).fresh = s.fresh + 1 := by
  simp [fresh, pushFront, Arena.pushFront]

theorem entries_clear : s.clear.entries = [] := Arena.Lists.clear.entries_eq

theorem fresh_clear : s.clear.fresh = s.fresh := by
  simp [fresh, clear, Arena.clear]

theorem entries_ofList : (ofList id code).entries = code.numbered 0 := by
  rw [ofList, entries_foldl_pushBack]
  rfl

theorem getElem?_of_names_ofList (h : (ofList id code).Names a i) : code[a.index]? = some i := by
  obtain ⟨p, hp, hnumber⟩ := Code.mem_numbered.1 (entries_ofList ▸ h.2)
  rwa [← hnumber, Nat.zero_add]

theorem fresh_foldl_pushBack : (code.foldl pushBack s).fresh = s.fresh + code.length := by
  induction code generalizing s with
  | nil => rfl
  | cons i code ih => simp [ih, fresh_pushBack]; omega

theorem fresh_ofList : (ofList id code).fresh = code.length := by
  rw [ofList, fresh_foldl_pushBack]
  exact Nat.zero_add _

end CodeStream

end CodeWeaving
