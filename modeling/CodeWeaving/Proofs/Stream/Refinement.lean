import CodeWeaving.Proofs.Stream.Sessions

/-! Streams go the way of lists of anchored instructions: an edit of a stream is the edit of its
list, and so is a whole session. -/
namespace CodeWeaving

namespace CodeStream

variable {s t : CodeStream} {a : Anchor} {i : Instruction} {code : Code} {d : StreamEdit}
  {e : AnchorError} {before after es : List (Nat × Instruction)}

/-- An entry with the anchor of its number. -/
def tag (s : CodeStream) (e : Nat × Instruction) : Anchor × Instruction := (s.anchor e.1, e.2)

/-- The stream as a list. -/
def listed (s : CodeStream) : AnchoredList := ⟨s.id, s.fresh, s.anchored⟩

theorem anchored_eq (h : t.id = s.id) : t.anchored = t.entries.map s.tag := by
  simp only [anchored, anchor, h]
  rfl

theorem map_fst_anchored : s.anchored.map Prod.fst = s.anchors := by
  simp [anchored, anchors]

theorem map_snd_anchored : s.anchored.map Prod.snd = s.instructions := by
  simp [anchored, instructions]

theorem nodup_anchors : s.anchors.Nodup := by
  have hanchors : s.anchors = (s.entries.map Prod.fst).map s.anchor := by simp [anchors]
  rw [hanchors]
  exact s.nodup.map fun m n h => (Anchor.mk.inj h).2

theorem mem_anchored : (a, i) ∈ s.anchored ↔ s.Names a i := by
  obtain ⟨stream, index⟩ := a
  simp only [anchored, anchor, Names, List.mem_map, Prod.mk.injEq, Anchor.mk.injEq]
  constructor
  · rintro ⟨⟨n, j⟩, hmem, ⟨rfl, rfl⟩, rfl⟩
    exact ⟨rfl, hmem⟩
  · rintro ⟨rfl, hmem⟩
    exact ⟨_, hmem, ⟨rfl, rfl⟩, rfl⟩

theorem mem_anchors : a ∈ s.anchors ↔ ∃ i, s.Names a i := by
  simp [← map_fst_anchored, mem_anchored]

theorem map_fst_name : (s.listed.name code).map Prod.fst = s.newAnchors code := by
  simp only [AnchoredList.name, newAnchors, List.map_map, ← Code.map_fst_numbered, listed]
  rfl

/-! An anchor that the list has is found in it, and any other is refused for the same reason. -/

section Anchors

theorem tag_eq (h : a.stream = s.id) : s.tag (a.index, i) = (a, i) := by
  simp only [tag, anchor, ← h]

theorem listed_live_of_split (hid : a.stream = s.id)
    (h : s.entries = before ++ (a.index, i) :: after) :
    s.listed.live = before.map s.tag ++ (a, i) :: after.map s.tag := by
  rw [listed, anchored_eq rfl, h, List.map_append, List.map_cons, tag_eq hid]

theorem put_of_split (hid : a.stream = s.id) (h : s.entries = before ++ (a.index, i) :: after)
    (f : Anchor × Instruction → List (Anchor × Instruction)) :
    s.listed.put a f = before.map s.tag ++ f (a, i) ++ after.map s.tag := by
  have hkeep {es : List (Nat × Instruction)} (hes : ∀ e ∈ es, e.1 ≠ a.index) :
      ((es.map s.tag).flatMap fun e => if e.1 = a then f e else [e]) = es.map s.tag := by
    rw [List.flatMap_map, List.flatMap_congr fun e he =>
      if_neg fun heq => hes e he (congrArg Anchor.index heq)]
    exact List.flatMap_pure_eq_map _ _
  rw [AnchoredList.put, listed_live_of_split hid h, List.flatMap_append, List.flatMap_cons,
    if_pos rfl, hkeep fun e he => ne_of_split h e (.inl he),
    hkeep fun e he => ne_of_split h e (.inr he), List.append_assoc]

theorem find_of_names (h : s.Names a i) : s.listed.find a = .ok i := by
  obtain ⟨before, after, hsplit⟩ := List.append_of_mem h.2
  have hlookup : s.listed.live.lookup a = some i := by
    refine List.lookup_eq_some_iff.2 ⟨_, _, listed_live_of_split h.1 hsplit, ?_⟩
    intro p hp
    obtain ⟨e, he, rfl⟩ := List.mem_map.1 hp
    have hne := ne_of_split hsplit e (.inl he)
    exact bne_iff_ne.2 fun heq => hne (congrArg Anchor.index heq).symm
  rw [AnchoredList.find, hlookup]

theorem get_of_names (h : s.Names a i) : s.get a = .ok i := by
  obtain ⟨hlive, hcheck⟩ := exists_check h
  rw [get, hcheck]
  refine congrArg Except.ok (Option.get_of_eq_some _ ?_)
  exact live?_eq_some.2 h.2

theorem find_of_notMem (h : a ∉ s.anchors) : s.listed.find a = .error (s.listed.fault a) := by
  have hlookup : s.listed.live.lookup a = none := by
    refine List.lookup_eq_none_iff.2 fun p hp => ?_
    have hmem : p.1 ∈ s.anchors := map_fst_anchored ▸ List.mem_map_of_mem hp
    exact bne_iff_ne.2 fun heq => h (heq ▸ hmem)
  rw [AnchoredList.find, hlookup]

theorem fault_listed : s.listed.fault a =
    if a.stream = s.id ∧ a.index < s.fresh then .removed a else .foreign a := rfl

theorem check_of_notMem (h : a ∉ s.anchors) : s.check a = .error (s.listed.fault a) := by
  cases hcheck : s.check a with
  | ok k => exact absurd (mem_anchors.2 (names_of_check hcheck)) h
  | error e =>
    unfold check at hcheck
    rw [fault_listed]
    split at hcheck
    · split at hcheck
      · cases hcheck
      · rename_i hid _
        split at hcheck <;> cases hcheck
        · rw [if_pos ⟨hid, ‹_›⟩]
        · rw [if_neg fun hand => ‹¬_› hand.2]
    · rename_i hid
      cases hcheck
      rw [if_neg fun hand => hid hand.1]

theorem refuses_of_check (h : s.check a = .error e) : s.Refuses a e := by
  have hget : s.get a = .error e := by
    rw [get, h]
    rfl
  have hbefore (code : Code) : s.insertBefore a code = .error e := by
    rw [insertBefore, h]
    rfl
  have hafter (code : Code) : s.insertAfter a code = .error e := by
    rw [insertAfter, h]
    rfl
  refine ⟨hget, by rw [next?, h]; rfl, by rw [prev?, h]; rfl, by rw [contains, h]; rfl, ?_⟩
  intro d hd
  cases d with
  | insertBefore b code => cases hd; simp only [perform, hbefore]
  | insertAfter b code => cases hd; simp only [perform, hafter]
  | replace b code => cases hd; simp only [perform, hbefore]
  | remove b => cases hd; simp only [perform, hget]
  | pushBack i => cases hd
  | pushFront i => cases hd
  | clear => cases hd

end Anchors

/-- What a stream stands for whose entries come from those of another one. -/
theorem listed_eq (hid : t.id = s.id) (hfresh : t.fresh = s.fresh + code.length)
    (hentries : t.entries = es) : t.listed = s.listed.withLive code (es.map s.tag) := by
  rw [listed, anchored_eq hid, hid, hfresh, hentries]
  rfl

theorem map_tag_numbered : (code.numbered s.fresh).map s.tag = s.listed.name code := rfl

theorem editAt_of_split (hi : s.Names a i) (h : s.entries = before ++ (a.index, i) :: after)
    (f : Anchor × Instruction → List (Anchor × Instruction))
    (removed : Instruction → Option Instruction) :
    s.listed.editAt a code f removed =
      (s.listed.withLive code (before.map s.tag ++ f (a, i) ++ after.map s.tag),
        .ok ⟨removed i, s.newAnchors code⟩) := by
  simp only [AnchoredList.editAt, find_of_names hi, put_of_split hi.1 h, map_fst_name]

/-- An edit of a stream is the edit of its list. -/
theorem perform_listed (s : CodeStream) (d : StreamEdit) :
    s.listed.perform d = ((s.perform d).1.listed, (s.perform d).2) := by
  by_cases ha : ∃ a, d.anchor? = some a ∧ a ∉ s.anchors
  · obtain ⟨a, hd, ha⟩ := ha
    rw [(refuses_of_check (check_of_notMem ha)).edit d hd]
    cases d <;> cases hd <;>
      simp only [AnchoredList.perform, AnchoredList.editAt, find_of_notMem ha]
  -- now the anchor, if the edit has one, is that of an entry
  have hsite (a : Anchor) (hd : d.anchor? = some a) :
      ∃ i before after, s.Names a i ∧ s.entries = before ++ (a.index, i) :: after := by
    obtain ⟨i, hi⟩ := mem_anchors.1 (not_not.1 fun hnot => ha ⟨a, hd, hnot⟩)
    obtain ⟨before, after, hsplit⟩ := List.append_of_mem hi.2
    exact ⟨i, before, after, hi, hsplit⟩
  cases d with
  | pushBack i =>
    have hlisted : (s.pushBack i).listed = s.listed.withLive [i] _ :=
      listed_eq rfl (s.fresh_pushBack i) (s.entries_pushBack i)
    simp only [perform, hlisted, AnchoredList.perform, map_fst_name, List.map_append]
    rfl
  | pushFront i =>
    have hlisted : (s.pushFront i).listed = s.listed.withLive [i] _ :=
      listed_eq rfl fresh_pushFront entries_pushFront
    simp only [perform, hlisted, AnchoredList.perform, map_fst_name, List.map_cons]
    rfl
  | insertBefore a code =>
    obtain ⟨i, before, after, hi, hsplit⟩ := hsite a rfl
    obtain ⟨t, ht, hid, hfresh, hentries⟩ := exists_insertBefore code hi.1 hsplit
    have hlisted := listed_eq hid hfresh hentries
    simp only [perform, ht, AnchoredList.perform, editAt_of_split hi hsplit, hlisted,
      List.map_append, List.map_cons, tag_eq hi.1, map_tag_numbered, List.append_assoc,
      List.cons_append, List.nil_append]
  | insertAfter a code =>
    obtain ⟨i, before, after, hi, hsplit⟩ := hsite a rfl
    obtain ⟨t, ht, hid, hfresh, hentries⟩ := exists_insertAfter code hi.1 hsplit
    have hlisted := listed_eq hid hfresh hentries
    simp only [perform, ht, AnchoredList.perform, editAt_of_split hi hsplit, hlisted,
      List.map_append, List.map_cons, tag_eq hi.1, map_tag_numbered, List.append_assoc,
      List.cons_append]
  | replace a code =>
    obtain ⟨i, before, after, hi, hsplit⟩ := hsite a rfl
    obtain ⟨t, ht, hid, hfresh, hentries⟩ := exists_insertBefore code hi.1 hsplit
    have hi' : t.Names a i := ⟨hi.1.trans hid.symm, by simp [hentries]⟩
    obtain ⟨u, hu, hid', hfresh', hentries'⟩ := exists_remove hi'.1 hentries
    have hlisted := listed_eq (hid'.trans hid) (hfresh'.trans hfresh) hentries'
    simp only [perform, ht, get_of_names hi', hu, AnchoredList.perform,
      editAt_of_split hi hsplit, hlisted, List.map_append, map_tag_numbered]
  | remove a =>
    obtain ⟨i, before, after, hi, hsplit⟩ := hsite a rfl
    obtain ⟨t, ht, hid, hfresh, hentries⟩ := exists_remove hi.1 hsplit
    have hlisted : t.listed = s.listed.withLive [] _ := listed_eq hid hfresh hentries
    simp only [perform, get_of_names hi, ht, AnchoredList.perform, editAt_of_split hi hsplit,
      hlisted, List.map_append, List.append_nil]
    rfl
  | clear =>
    have hlisted : s.clear.listed = s.listed.withLive [] _ :=
      listed_eq rfl fresh_clear entries_clear
    simp only [perform, hlisted, AnchoredList.perform]
    rfl

theorem id_foldl_pushBack : (code.foldl pushBack s).id = s.id := by
  induction code generalizing s with
  | nil => rfl
  | cons i code ih => exact ih

theorem listed_copy (s : CodeStream) (id : Nat) : (s.copy id).listed = s.listed.copy id := by
  have hlisted : (ofList id s.instructions).listed =
      (empty id).listed.withLive s.instructions _ :=
    listed_eq id_foldl_pushBack (fresh_ofList.trans (Nat.zero_add _).symm) entries_ofList
  have hinstructions : s.listed.live.map Prod.snd = s.instructions := map_snd_anchored
  rw [copy, hlisted, AnchoredList.copy, hinstructions]
  rfl

end CodeStream

/-! What becomes of an anchor: it stays with its instruction until an edit takes that out, and is
gone from then on. -/

namespace AnchoredList

variable {l : AnchoredList} {a : Anchor} {i : Instruction} {d : StreamEdit} {code : Code}
  {e : Anchor × Instruction} {f : Anchor × Instruction → List (Anchor × Instruction)}

/-- The anchor has been handed out, whether or not it is still in the list. -/
def Handed (l : AnchoredList) (a : Anchor) : Prop := a.stream = l.id ∧ a.index < l.used

theorem le_of_mem_name (h : e ∈ l.name code) : l.used ≤ e.1.index := by
  obtain ⟨⟨n, j⟩, hmem, rfl⟩ := List.mem_map.1 h
  exact Code.le_of_mem_numbered hmem

theorem mem_put : e ∈ l.put a f ↔ (e ∈ l.live ∧ e.1 ≠ a) ∨ ∃ j, (a, j) ∈ l.live ∧ e ∈ f (a, j) := by
  simp only [put, List.mem_flatMap]
  constructor
  · rintro ⟨⟨b, j⟩, hmem, he⟩
    split at he
    · rename_i hb
      exact .inr ⟨j, hb ▸ hmem, hb ▸ he⟩
    · rename_i hb
      obtain rfl := List.mem_singleton.1 he
      exact .inl ⟨hmem, hb⟩
  · rintro (⟨hmem, hne⟩ | ⟨j, hmem, he⟩)
    · exact ⟨e, hmem, by simp [hne]⟩
    · exact ⟨(a, j), hmem, by simpa using he⟩

theorem put_of_notMem (h : a ∉ l.live.map Prod.fst) : l.put a f = l.live := by
  have hne (e : Anchor × Instruction) (he : e ∈ l.live) : e.1 ≠ a := fun heq =>
    h (List.mem_map.2 ⟨e, he, heq⟩)
  rw [put, List.flatMap_congr fun e he => if_neg (hne e he)]
  exact (List.flatMap_pure_eq_map _ _).trans (List.map_id' _)

/-- Where the anchor is not found there is nothing to change. -/
theorem live_editAt {removed : Instruction → Option Instruction} :
    (l.editAt a code f removed).1.live = l.put a f := by
  unfold editAt
  split
  · rfl
  · rename_i hfind
    refine (put_of_notMem fun hmem => ?_).symm
    obtain ⟨e, he, rfl⟩ := List.mem_map.1 hmem
    unfold find at hfind
    split at hfind
    · cases hfind
    · rename_i hlookup
      have hne := List.lookup_eq_none_iff.1 hlookup e he
      simp at hne

theorem id_editAt {removed : Instruction → Option Instruction} :
    (l.editAt a code f removed).1.id = l.id := by
  unfold editAt
  split <;> rfl

theorem used_le_editAt {removed : Instruction → Option Instruction} :
    l.used ≤ (l.editAt a code f removed).1.used := by
  unfold editAt
  split
  · exact Nat.le_add_right _ _
  · exact Nat.le_refl _

theorem id_perform : (l.perform d).1.id = l.id := by
  cases d with
  | pushBack i => rfl
  | pushFront i => rfl
  | insertBefore a code => exact id_editAt
  | insertAfter a code => exact id_editAt
  | replace a code => exact id_editAt
  | remove a => exact id_editAt
  | clear => rfl

theorem used_le_perform : l.used ≤ (l.perform d).1.used := by
  cases d with
  | pushBack i => exact Nat.le_add_right _ _
  | pushFront i => exact Nat.le_add_right _ _
  | insertBefore a code => exact used_le_editAt
  | insertAfter a code => exact used_le_editAt
  | replace a code => exact used_le_editAt
  | remove a => exact used_le_editAt
  | clear => exact Nat.le_add_right _ _

/-- What an edit leaves was there before and is not what it takes out, or is new. -/
theorem mem_or_le_of_mem_perform (h : e ∈ (l.perform d).1.live) :
    (e ∈ l.live ∧ ¬d.Drops e.1) ∨ l.used ≤ e.1.index := by
  cases d with
  | pushBack i => exact (List.mem_append.1 h).imp (fun he => ⟨he, not_false⟩) le_of_mem_name
  | pushFront i => exact (List.mem_append.1 h).symm.imp (fun he => ⟨he, not_false⟩) le_of_mem_name
  | insertBefore a code =>
    rw [perform, live_editAt, mem_put] at h
    obtain ⟨he, -⟩ | ⟨j, hj, he⟩ := h
    · exact .inl ⟨he, not_false⟩
    · refine (List.mem_append.1 he).symm.imp (fun he => ?_) le_of_mem_name
      exact ⟨List.mem_singleton.1 he ▸ hj, not_false⟩
  | insertAfter a code =>
    rw [perform, live_editAt, mem_put] at h
    obtain ⟨he, -⟩ | ⟨j, hj, he⟩ := h
    · exact .inl ⟨he, not_false⟩
    · refine (List.mem_cons.1 he).imp (fun he => ?_) le_of_mem_name
      subst he
      exact ⟨hj, not_false⟩
  | replace a code =>
    rw [perform, live_editAt, mem_put] at h
    obtain ⟨he, hne⟩ | ⟨j, hj, he⟩ := h
    · exact .inl ⟨he, fun ha => hne ha.symm⟩
    · exact .inr (le_of_mem_name he)
  | remove a =>
    rw [perform, live_editAt, mem_put] at h
    obtain ⟨he, hne⟩ | ⟨j, hj, he⟩ := h
    · exact .inl ⟨he, fun ha => hne ha.symm⟩
    · cases he
  | clear => cases h

theorem mem_perform (h : e ∈ l.live) (hd : ¬d.Drops e.1) : e ∈ (l.perform d).1.live := by
  have hput {a : Anchor} {f : Anchor × Instruction → List (Anchor × Instruction)}
      (hf : ∀ j, (a, j) ∈ f (a, j)) : e ∈ l.put a f := by
    by_cases ha : e.1 = a
    · subst ha
      exact mem_put.2 (.inr ⟨e.2, h, hf e.2⟩)
    · exact mem_put.2 (.inl ⟨h, ha⟩)
  cases d with
  | pushBack i => exact List.mem_append_left _ h
  | pushFront i => exact List.mem_append_right _ h
  | insertBefore a code =>
    rw [perform, live_editAt]
    exact hput fun j => List.mem_append_right _ List.mem_cons_self
  | insertAfter a code =>
    rw [perform, live_editAt]
    exact hput fun j => List.mem_cons_self
  | replace a code =>
    rw [perform, live_editAt]
    exact mem_put.2 (.inl ⟨h, fun ha => hd ha.symm⟩)
  | remove a =>
    rw [perform, live_editAt]
    exact mem_put.2 (.inl ⟨h, fun ha => hd ha.symm⟩)
  | clear => exact absurd trivial hd

/-- What an edit takes out is gone, and what is gone stays so. -/
theorem gone_perform (h : l.Handed a) (hd : a ∈ l.live.map Prod.fst → d.Drops a) :
    (l.perform d).1.Handed a ∧ a ∉ (l.perform d).1.live.map Prod.fst := by
  refine ⟨⟨h.1.trans id_perform.symm, Nat.lt_of_lt_of_le h.2 used_le_perform⟩, fun hmem => ?_⟩
  obtain ⟨e, he, rfl⟩ := List.mem_map.1 hmem
  rcases mem_or_le_of_mem_perform he with ⟨he, hkept⟩ | hle
  · exact hkept (hd (List.mem_map_of_mem he))
  · exact absurd h.2 hle.not_gt

end AnchoredList

namespace CodeStream

variable {s : CodeStream} {a : Anchor} {d : StreamEdit} {e : Anchor × Instruction}

theorem handed_of_mem_anchors (h : a ∈ s.anchors) : s.listed.Handed a := by
  obtain ⟨i, hid, hmem⟩ := mem_anchors.1 h
  exact ⟨hid, s.below _ hmem⟩

/-- The anchor was one of the stream's and no longer is. -/
def Gone (s : CodeStream) (a : Anchor) : Prop := s.listed.Handed a ∧ a ∉ s.anchors

theorem Gone.refuses (h : s.Gone a) : s.Refuses a (.removed a) := by
  have hcheck := check_of_notMem h.2
  rw [fault_listed, if_pos ⟨h.1.1, h.1.2⟩] at hcheck
  exact refuses_of_check hcheck

theorem refuses_foreign (h : a.stream ≠ s.id) : s.Refuses a (.foreign a) := by
  have hcheck := check_of_notMem fun ha => h (handed_of_mem_anchors ha).1
  rw [fault_listed, if_neg fun hand => h hand.1] at hcheck
  exact refuses_of_check hcheck

theorem id_perform (s : CodeStream) (d : StreamEdit) : (s.perform d).1.id = s.id := by
  have hid : (s.listed.perform d).1.id = s.id := AnchoredList.id_perform
  rwa [perform_listed] at hid

theorem mem_anchored_perform (he : e ∈ s.anchored) (hd : ¬d.Drops e.1) :
    e ∈ (s.perform d).1.anchored := by
  have hmem : e ∈ (s.listed.perform d).1.live := AnchoredList.mem_perform he hd
  rwa [perform_listed] at hmem

theorem gone_perform (h : s.listed.Handed a) (hd : a ∈ s.anchors → d.Drops a) :
    (s.perform d).1.Gone a := by
  have hgone := AnchoredList.gone_perform h fun hmem => hd (map_fst_anchored ▸ hmem)
  rw [perform_listed] at hgone
  exact ⟨hgone.1, map_fst_anchored ▸ hgone.2⟩

end CodeStream

end CodeWeaving
