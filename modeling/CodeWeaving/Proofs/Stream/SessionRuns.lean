import CodeWeaving.Proofs.Stream.Refinement

/-! Whole sessions: whatever is edited in whatever order, every stream is a list with anchors that
stay. -/
namespace CodeWeaving

/-- A stream answers every question as a list does. -/
structure Agrees (s : CodeStream) (l : AnchoredList) : Prop where
  anchored : s.anchored = l.live
  iter : ∀ steps, s.size ≤ steps → (s.arena.walk steps s.arena.head).map s.tag = l.live
  anchors : s.anchors = l.live.map Prod.fst
  distinct : (l.live.map Prod.fst).Nodup
  instructions : s.instructions = l.live.map Prod.snd
  size : s.size = l.live.length
  isEmpty : s.isEmpty = l.live.isEmpty
  first : s.first? = l.live.head?.map Prod.fst
  last : s.last? = l.live.getLast?.map Prod.fst
  entry : ∀ before a i after, l.live = before ++ (a, i) :: after →
    s.contains a = true ∧ s.get a = .ok i ∧ s.next? a = .ok (after.head?.map Prod.fst) ∧
      s.prev? a = .ok (before.getLast?.map Prod.fst)
  other : ∀ a, a ∉ l.live.map Prod.fst → s.Refuses a (l.fault a)

namespace CodeStream

variable {s t : CodeStream} {a : Anchor}

theorem size_eq : s.size = s.entries.length := s.lists.size_eq

theorem first?_eq : s.first? = s.anchored.head?.map Prod.fst := by
  have hhead : s.arena.head = Arena.after s.entries 0 := s.lists.next_before 0 (Nat.zero_le _)
  rw [first?, hhead, Arena.after, anchored_eq rfl, List.head?_map, List.head?_eq_getElem?]
  simp [tag, Function.comp_def]

theorem last?_eq : s.last? = s.anchored.getLast?.map Prod.fst := by
  have htail : s.arena.tail = Arena.before s.entries s.entries.length := by
    have hprev := s.lists.prev_after s.entries.length (Nat.le_refl _)
    rwa [Arena.after, List.getElem?_eq_none (Nat.le_refl _)] at hprev
  have hlast := Arena.before_length s.entries []
  rw [List.append_nil] at hlast
  rw [last?, htail, hlast, anchored_eq rfl, List.getLast?_map]
  simp [tag, Function.comp_def]

/-- The walk ends by itself, not because it is cut short. -/
theorem map_walk {steps : Nat} (h : s.size ≤ steps) :
    (s.arena.walk steps s.arena.head).map s.tag = s.anchored := by
  have hhead : s.arena.head = Arena.after s.entries 0 := s.lists.next_before 0 (Nat.zero_le _)
  rw [hhead, s.lists.walk_after (Nat.zero_le _) (by rw [Nat.zero_add]; exact size_eq ▸ h),
    List.drop_zero, anchored_eq rfl]

theorem neighbours {before after : List (Anchor × Instruction)} {i : Instruction}
    (h : s.anchored = before ++ (a, i) :: after) :
    s.next? a = .ok (after.head?.map Prod.fst) ∧
      s.prev? a = .ok (before.getLast?.map Prod.fst) := by
  have hi : s.Names a i := mem_anchored.1 (by simp [h])
  obtain ⟨hlive, hcheck⟩ := exists_check hi
  obtain ⟨es, fs, hsplit, rfl, hfs⟩ := List.map_eq_append_iff.1 ((anchored_eq rfl).symm.trans h)
  obtain ⟨e, fs, rfl, he, rfl⟩ := List.map_eq_cons_iff.1 hfs
  obtain ⟨ha, -⟩ := Prod.mk.inj he
  subst ha
  have hlists := hsplit ▸ s.lists
  have hlast : Arena.before (es ++ e :: fs) (es ++ [e]).length = some e.1 := by
    rw [List.append_cons, Arena.before_length]
    simp
  have hprev := hlists.prev_after es.length (by simp)
  have hnext := hlists.next_before (es ++ [e]).length (by simp)
  rw [Arena.after_length, Arena.before_length] at hprev
  rw [hlast, List.append_cons, Arena.after_length] at hnext
  rw [next?, prev?, hcheck, List.head?_map, List.getLast?_map]
  refine ⟨congrArg Except.ok ?_, congrArg Except.ok ?_⟩
  · change (s.arena.next (some e.1)).map s.anchor = _
    rw [hnext]
    simp [tag, Function.comp_def]
  · change (s.arena.prev (some e.1)).map s.anchor = _
    rw [show s.arena.prev (some e.1) = _ from hprev]
    simp [tag, Function.comp_def]

theorem agrees_listed (s : CodeStream) : Agrees s s.listed where
  anchored := rfl
  iter steps hsteps := map_walk hsteps
  anchors := map_fst_anchored.symm
  distinct := by
    rw [listed, map_fst_anchored]
    exact nodup_anchors
  instructions := map_snd_anchored.symm
  size := by rw [size_eq, listed, anchored, List.length_map]
  isEmpty := by
    rw [isEmpty, size_eq, listed, anchored, List.isEmpty_map]
    cases s.entries <;> rfl
  first := first?_eq
  last := last?_eq
  entry before a i after h := by
    have hi : s.Names a i := mem_anchored.1 (by rw [show s.anchored = _ from h]; simp)
    obtain ⟨hlive, hcheck⟩ := exists_check hi
    exact ⟨by rw [contains, hcheck]; rfl, get_of_names hi, neighbours h⟩
  other a ha := refuses_of_check (check_of_notMem fun hmem => ha (map_fst_anchored ▸ hmem))

/-- Only an anchor that is gone is reported as removed. -/
theorem gone_of_refuses (h : s.Refuses a (.removed a)) : s.Gone a := by
  have hnot : a ∉ s.anchors := fun ha => by
    obtain ⟨i, hi⟩ := mem_anchors.1 ha
    cases (get_of_names hi).symm.trans h.get
  refine ⟨?_, hnot⟩
  have hother := (s.agrees_listed.other a fun hmem => hnot (map_fst_anchored ▸ hmem)).get
  rw [h.get, fault_listed] at hother
  split at hother
  · rename_i hand
    exact hand
  · cases hother

theorem length_eq_of_beq {c c' : Code} (h : (c == c') = true) : c.length = c'.length := by
  induction c generalizing c' with
  | nil => cases c' <;> simp_all
  | cons i c ih =>
    cases c' with
    | nil => simp at h
    | cons i' c' =>
      rw [List.cons_beq_cons, Bool.and_eq_true] at h
      rw [List.length_cons, List.length_cons, ih h.2]

/-- An edit that fails leaves the stream as it was; also a replacement, which first inserts. -/
theorem perform_of_error {d : StreamEdit} {e : AnchorError} (h : (s.perform d).2 = .error e) :
    (s.perform d).1 = s := by
  by_cases ha : ∃ a, d.anchor? = some a ∧ a ∉ s.anchors
  · obtain ⟨a, hd, ha⟩ := ha
    rw [(refuses_of_check (check_of_notMem ha)).edit d hd]
  have hfound {a : Anchor} {code : Code} {f : Anchor × Instruction → List (Anchor × Instruction)}
      {removed : Instruction → Option Instruction} (hd : d.anchor? = some a) :
      (s.listed.editAt a code f removed).2 ≠ .error e := by
    obtain ⟨i, hi⟩ := mem_anchors.1 (not_not.1 fun hnot => ha ⟨a, hd, hnot⟩)
    simp [AnchoredList.editAt, find_of_names hi]
  have houtcome : (s.listed.perform d).2 = .error e := by rw [perform_listed, h]
  cases d with
  | pushBack i => cases houtcome
  | pushFront i => cases houtcome
  | insertBefore a code => exact absurd houtcome (hfound rfl)
  | insertAfter a code => exact absurd houtcome (hfound rfl)
  | replace a code => exact absurd houtcome (hfound rfl)
  | remove a => exact absurd houtcome (hfound rfl)
  | clear => cases houtcome

theorem beq_eq (s t : CodeStream) : (s == t) = (s.instructions == t.instructions) := by
  change (s.size == t.size && s.instructions == t.instructions) = _
  cases h : s.instructions == t.instructions with
  | false => exact Bool.and_false _
  | true =>
    have hlength := length_eq_of_beq h
    rw [instructions, instructions, List.length_map, List.length_map, ← size_eq, ← size_eq]
      at hlength
    rw [Bool.and_true, beq_iff_eq, hlength]

end CodeStream

namespace Editor

variable {τ υ : Type} {E : Editor τ} {F : Editor υ} {f : τ → υ}

/-- Where each operation on one thing is the operation on its image, so is a session. -/
theorem run_map (hempty : ∀ id, F.empty id = f (E.empty id))
    (hcopy : ∀ t id, F.copy (f t) id = f (E.copy t id))
    (hperform : ∀ t d, F.perform (f t) d = (f (E.perform t d).1, (E.perform t d).2))
    (ts : List τ) (ops : List Operation) :
    F.run (ts.map f) ops = ((E.run ts ops).1.map f, (E.run ts ops).2) := by
  have hstep (ts : List τ) (op : Operation) :
      F.step (ts.map f) op = ((E.step ts op).1.map f, (E.step ts op).2) := by
    cases op with
    | create => simp [step, hempty]
    | copy k =>
      simp only [step, List.getElem?_map]
      cases ts[k]? <;> simp [hcopy]
    | edit k d =>
      simp only [step, List.getElem?_map]
      cases ts[k]? <;> simp [hperform, List.map_set]
  induction ops generalizing ts with
  | nil => rfl
  | cons op ops ih => simp only [run, hstep, ih]

end Editor

/-- A session with streams is the session with their lists. -/
theorem run_listed (ss : List CodeStream) (ops : List Operation) :
    Editor.lists.run (ss.map CodeStream.listed) ops =
      ((Editor.streams.run ss ops).1.map CodeStream.listed, (Editor.streams.run ss ops).2) :=
  Editor.run_map (fun _ => rfl) (fun s id => (s.listed_copy id).symm) CodeStream.perform_listed ss
    ops

section History

variable {ss : List CodeStream} {s : CodeStream} {k : Nat} {op : Operation} {ops : List Operation}
  {a : Anchor} {e : Anchor × Instruction}

/-- The operation takes the anchor's instruction out of a stream. -/
def Operation.DropsFrom (k : Nat) (a : Anchor) (op : Operation) : Prop :=
  ∃ d, op = .edit k d ∧ d.Drops a

/-- What has become of a stream after some operations. -/
structure Follows (k : Nat) (s : CodeStream) (ops : List Operation) (t : CodeStream) : Prop where
  id : t.id = s.id
  kept : ∀ e ∈ s.anchored, (∀ op ∈ ops, ¬op.DropsFrom k e.1) → e ∈ t.anchored
  dropped : ∀ e ∈ s.anchored, (∃ op ∈ ops, op.DropsFrom k e.1) → t.Gone e.1
  gone : ∀ a, s.Gone a → t.Gone a

theorem Follows.refl : Follows k s [] s where
  id := rfl
  kept _ he _ := he
  dropped _ _ h := by simp at h
  gone _ h := h

theorem Follows.cons {t u : CodeStream} (h : Follows k s [op] t) (h' : Follows k t ops u) :
    Follows k s (op :: ops) u where
  id := h'.id.trans h.id
  kept e he hno := by
    refine h'.kept e (h.kept e he fun op' hop => ?_) fun op' hop =>
      hno op' (List.mem_cons_of_mem _ hop)
    exact List.mem_singleton.1 hop ▸ hno op List.mem_cons_self
  dropped e he := by
    rintro ⟨op', hop, hd⟩
    by_cases hnow : op.DropsFrom k e.1
    · exact h'.gone _ (h.dropped e he ⟨op, List.mem_singleton.2 rfl, hnow⟩)
    · refine h'.dropped e (h.kept e he fun op'' hop'' => List.mem_singleton.1 hop'' ▸ hnow) ?_
      rcases List.mem_cons.1 hop with rfl | hop
      · exact absurd hd hnow
      · exact ⟨op', hop, hd⟩
  gone a ha := h'.gone a (h.gone a ha)

theorem follows_perform (s : CodeStream) (d : StreamEdit) :
    Follows k s [.edit k d] (s.perform d).1 where
  id := s.id_perform d
  kept e he hno := CodeStream.mem_anchored_perform he fun hd =>
    hno _ (List.mem_singleton.2 rfl) ⟨d, rfl, hd⟩
  dropped e he := by
    rintro ⟨op, hop, d', hd', hd⟩
    obtain rfl := List.mem_singleton.1 hop
    cases hd'
    have ha : e.1 ∈ s.anchors := CodeStream.map_fst_anchored ▸ List.mem_map_of_mem he
    exact CodeStream.gone_perform (CodeStream.handed_of_mem_anchors ha) fun _ => hd
  gone a ha := CodeStream.gone_perform ha.1 fun hmem => absurd hmem ha.2

theorem follows_other (h : ∀ d, op ≠ .edit k d) (s : CodeStream) : Follows k s [op] s where
  id := rfl
  kept _ he _ := he
  dropped e he := by
    rintro ⟨op', hop, d, hd, -⟩
    obtain rfl := List.mem_singleton.1 hop
    exact absurd hd (h d)
  gone _ h := h

theorem exists_follows_step (h : ss[k]? = some s) (op : Operation) :
    ∃ t, (Editor.streams.step ss op).1[k]? = some t ∧ Follows k s [op] t := by
  have hlt := (List.getElem?_eq_some_iff.1 h).1
  cases op with
  | create =>
    exact ⟨s, by simp [Editor.step, List.getElem?_append_left hlt, h], follows_other (by simp) s⟩
  | copy j =>
    refine ⟨s, ?_, follows_other (by simp) s⟩
    simp only [Editor.step]
    cases ss[j]? <;> simp [List.getElem?_append_left hlt, h]
  | edit j d =>
    by_cases hj : j = k
    · subst hj
      refine ⟨_, ?_, follows_perform s d⟩
      simp only [Editor.step, h]
      simp [hlt, Editor.streams]
    · refine ⟨s, ?_, follows_other (by simp [hj]) s⟩
      simp only [Editor.step]
      cases ss[j]? <;> simp [List.getElem?_set_ne hj, h]

theorem exists_follows (h : ss[k]? = some s) (ops : List Operation) :
    ∃ t, (Editor.streams.run ss ops).1[k]? = some t ∧ Follows k s ops t := by
  induction ops generalizing ss s with
  | nil => exact ⟨s, h, .refl⟩
  | cons op ops ih =>
    obtain ⟨t, ht, hfollows⟩ := exists_follows_step h op
    obtain ⟨u, hu, hfollows'⟩ := ih ht
    exact ⟨u, hu, hfollows.cons hfollows'⟩

/-- The streams have the numbers of their places. -/
def InPlaces (ss : List CodeStream) : Prop := ∀ (k : Nat) s, ss[k]? = some s → s.id = k

theorem InPlaces.append (h : InPlaces ss) (hid : s.id = ss.length) : InPlaces (ss ++ [s]) := by
  intro k t hk
  rcases Nat.lt_or_ge k ss.length with hlt | hge
  · exact h k t (List.getElem?_append_left hlt ▸ hk)
  · rw [List.getElem?_append_right hge] at hk
    obtain ⟨hsub, rfl⟩ := List.getElem?_eq_some_iff.1 hk
    have hk : k = ss.length := by simp at hsub; omega
    simpa [hk] using hid

theorem InPlaces.step (h : InPlaces ss) : InPlaces (Editor.streams.step ss op).1 := by
  cases op with
  | create => exact h.append rfl
  | copy k =>
    simp only [Editor.step]
    cases ss[k]? with
    | none => exact h
    | some t => exact h.append CodeStream.id_foldl_pushBack
  | edit k d =>
    simp only [Editor.step]
    cases hk : ss[k]? with
    | none => exact h
    | some s =>
      intro j t hj
      rw [List.getElem?_set] at hj
      split at hj
      · rename_i heq
        split at hj
        · cases hj
          exact (s.id_perform d).trans (h j s (heq ▸ hk))
        · cases hj
      · exact h j t hj

theorem InPlaces.run (h : InPlaces ss) : InPlaces (Editor.streams.run ss ops).1 := by
  induction ops generalizing ss with
  | nil => exact h
  | cons op ops ih => exact ih h.step

end History

/-- Streams refine lists with stable anchors: a session over any number of streams, and copies made
on the way, has the outcomes that it has with lists, and leaves streams that answer like those
lists. An edit that fails changes nothing. However the session goes on, an anchor keeps its
instruction until an edit takes that out, from then on it is reported as removed, and on every other
stream it is foreign. -/
theorem streams_refine_lists (ops : List Operation) :
    ∃ ss ls outcomes,
      Editor.streams.run [] ops = (ss, outcomes) ∧ Editor.lists.run [] ops = (ls, outcomes) ∧
      List.Forall₂ Agrees ss ls ∧
      (∀ s ∈ ss, ∀ t ∈ ss, (s == t) = (s.instructions == t.instructions)) ∧
      (∀ s ∈ ss, ∀ d e, (s.perform d).2 = .error e → (s.perform d).1 = s) ∧
      ∀ more k s, ss[k]? = some s → ∃ t, (Editor.streams.run ss more).1[k]? = some t ∧
        (∀ e ∈ s.anchored, (∀ op ∈ more, ¬op.DropsFrom k e.1) → e ∈ t.anchored) ∧
        (∀ e ∈ s.anchored, (∃ op ∈ more, op.DropsFrom k e.1) → t.Refuses e.1 (.removed e.1)) ∧
        (∀ a, s.Refuses a (.removed a) → t.Refuses a (.removed a)) ∧
        ∀ j u, j ≠ k → (Editor.streams.run ss more).1[j]? = some u →
          ∀ a, s.listed.Handed a → u.Refuses a (.foreign a) := by
  have hplaces : InPlaces (Editor.streams.run [] ops).1 := InPlaces.run (by simp [InPlaces])
  refine ⟨(Editor.streams.run [] ops).1, _, (Editor.streams.run [] ops).2, rfl,
    run_listed [] ops, ?_, fun s _ t _ => CodeStream.beq_eq s t, ?_, ?_⟩
  · rw [List.forall₂_map_right_iff]
    exact List.forall₂_same.2 fun s _ => s.agrees_listed
  · intro s _ d e he
    exact CodeStream.perform_of_error he
  · intro more k s hs
    obtain ⟨t, ht, hfollows⟩ := exists_follows hs more
    refine ⟨t, ht, hfollows.kept, fun e he hd => (hfollows.dropped e he hd).refuses,
      fun a ha => (hfollows.gone a (CodeStream.gone_of_refuses ha)).refuses, ?_⟩
    intro j u hne hu a ha
    refine CodeStream.refuses_foreign fun hid => hne ?_
    calc j = u.id := (hplaces.run j u hu).symm
      _ = a.stream := hid.symm
      _ = s.id := ha.1
      _ = k := hplaces k s hs

end CodeWeaving
