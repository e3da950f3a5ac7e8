import CodeWeaving.Proofs.Weaving.Edits

/-! Edits at many instructions of a stream at once: what one edit keeps, all of them keep. -/
namespace CodeWeaving

/-- Edits one after another, each at an instruction whose number lies below the limit. -/
inductive EditChain (limit : Nat) : List Edit → CodeStream → CodeStream → Prop where
  | nil {s : CodeStream} : EditChain limit [] s s
  | cons {e : Edit} {es : List Edit} {i : Instruction} {s t u : CodeStream}
      (hlt : e.anchor.index < limit) (hc : e.Changes i s t) (h : EditChain limit es t u) :
      EditChain limit (e :: es) s u

namespace EditChain

variable {limit : Nat} {es : List Edit} {s t : CodeStream} {a : Anchor} {j : Instruction}

/-- Edits at instructions of the stream, no two at the same one, never miss. -/
theorem exists_foldlM (hlt : ∀ e ∈ es, e.anchor.index < limit)
    (hnames : ∀ e ∈ es, ∃ i, s.Names e.anchor i) (hanchors : (es.map Edit.anchor).Nodup) :
    ∃ t, es.foldlM Edit.apply s = .ok t ∧ EditChain limit es s t := by
  induction es generalizing s with
  | nil => exact ⟨s, rfl, .nil⟩
  | cons e es ih =>
    obtain ⟨i, hi⟩ := hnames e List.mem_cons_self
    obtain ⟨u, hu, hc⟩ := Edit.exists_apply hi
    obtain ⟨hne, hanchors⟩ := List.nodup_cons.1 hanchors
    have hrest : ∀ f ∈ es, ∃ j, u.Names f.anchor j := by
      intro f hf
      obtain ⟨j, hj⟩ := hnames f (List.mem_cons_of_mem _ hf)
      exact ⟨j, hc.names hj (.inl fun heq => hne (heq ▸ List.mem_map_of_mem hf))⟩
    obtain ⟨t, ht, hchain⟩ := ih (fun f hf => hlt f (List.mem_cons_of_mem _ hf)) hrest hanchors
    refine ⟨t, ?_, .cons (hlt e List.mem_cons_self) hc hchain⟩
    rw [List.foldlM_cons, hu]
    exact ht

theorem id_eq (h : EditChain limit es s t) : t.id = s.id := by
  induction h with
  | nil => rfl
  | cons _ hc _ ih => exact ih.trans hc.id

theorem stream_eq (h : EditChain limit es s t) : ∀ e ∈ es, e.anchor.stream = s.id := by
  induction h with
  | nil => simp
  | cons _ hc _ ih =>
    exact List.forall_mem_cons.2 ⟨hc.site.1, fun f hf => (ih f hf).trans hc.id⟩

theorem lt (h : EditChain limit es s t) : ∀ e ∈ es, e.anchor.index < limit := by
  induction h with
  | nil => simp
  | cons hlt _ _ ih => exact List.forall_mem_cons.2 ⟨hlt, ih⟩

theorem mem_instructions {j : Instruction} (h : EditChain limit es s t)
    (hj : j ∈ t.instructions) : j ∈ s.instructions ∨ ∃ e ∈ es, j ∈ e.code := by
  induction h with
  | nil => exact .inl hj
  | cons _ hc _ ih =>
    rcases ih hj with hj | ⟨f, hf, hj⟩
    · rcases hc.mem_instructions hj with hj | hj
      · exact .inl hj
      · exact .inr ⟨_, List.mem_cons_self, hj⟩
    · exact .inr ⟨f, List.mem_cons_of_mem _ hf, hj⟩

/-- An instruction that no edit replaces stays. -/
theorem names (h : EditChain limit es s t) (ha : s.Names a j)
    (hkept : ∀ code, .replace a code ∉ es) : t.Names a j := by
  induction h with
  | nil => exact ha
  | @cons e es i s t u _ hc _ ih =>
    refine ih (hc.names ha ?_) fun code hmem => hkept code (List.mem_cons_of_mem _ hmem)
    by_cases heq : a = e.anchor
    · subst heq
      exact .inr fun code he => hkept code (he ▸ List.mem_cons_self)
    · exact .inl heq

/-- Edits for different instructions have different numbers. -/
theorem nodup_index (h : EditChain limit es s t) (hanchors : (es.map Edit.anchor).Nodup) :
    (es.map fun e => e.anchor.index).Nodup := by
  have hindex : (es.map fun e => e.anchor.index) = (es.map Edit.anchor).map Anchor.index := by
    rw [List.map_map]
    rfl
  rw [hindex]
  refine hanchors.map_on fun a ha b hb hab => ?_
  obtain ⟨e, he, rfl⟩ := List.mem_map.1 ha
  obtain ⟨f, hf, rfl⟩ := List.mem_map.1 hb
  calc e.anchor = ⟨e.anchor.stream, e.anchor.index⟩ := rfl
    _ = ⟨f.anchor.stream, f.anchor.index⟩ := by rw [h.stream_eq e he, h.stream_eq f hf, hab]

end EditChain

/-- Edits one after another, each at an instruction that it suits and whose number lies below the
limit. -/
inductive EditRun (limit : Nat) : List Edit → CodeStream → CodeStream → Prop where
  | nil {s : CodeStream} : EditRun limit [] s s
  | cons {e : Edit} {es : List Edit} {i : Instruction} {s t u : CodeStream} (hs : e.Suits i)
      (hlt : e.anchor.index < limit) (hc : e.Changes i s t) (h : EditRun limit es t u) :
      EditRun limit (e :: es) s u

namespace EditRun

variable {limit n : Nat} {e : Edit} {es : List Edit} {i j : Instruction} {s t : CodeStream}
  {a : Anchor}

theorem chain (h : EditRun limit es s t) : EditChain limit es s t := by
  induction h with
  | nil => exact .nil
  | cons _ hlt hc _ ih => exact .cons hlt hc ih

/-- Edits in a row that all suit their instructions. -/
theorem of_chain (h : EditChain limit es s t)
    (hsites : ∀ e ∈ es, ∃ i, s.Names e.anchor i ∧ e.Suits i)
    (hanchors : (es.map Edit.anchor).Nodup) : EditRun limit es s t := by
  induction h with
  | nil => exact .nil
  | @cons e es i s t u hlt hc _ ih =>
    obtain ⟨hne, hanchors⟩ := List.nodup_cons.1 hanchors
    obtain ⟨j, hj, hs⟩ := hsites e List.mem_cons_self
    obtain rfl := hj.unique hc.site
    refine .cons hs hlt hc (ih (fun f hf => ?_) hanchors)
    obtain ⟨k, hk, hfs⟩ := hsites f (List.mem_cons_of_mem _ hf)
    exact ⟨k, hc.names hk (.inl fun heq => hne (heq ▸ List.mem_map_of_mem hf)), hfs⟩

theorem mem_old (h : EditRun limit es s t) (hmem : (n, j) ∈ t.entries) (hn : n < s.fresh) :
    (n, j) ∈ s.entries := by
  induction h with
  | nil => exact hmem
  | cons _ _ hc _ ih => exact hc.mem_old (ih hmem (hn.trans_le hc.fresh_le)) hn

theorem declaresLiteral (h : EditRun limit es s t)
    (hs : ∀ i ∈ s.instructions, i.declaresLiteral = true) :
    ∀ i ∈ t.instructions, i.declaresLiteral = true := by
  induction h with
  | nil => exact hs
  | cons he _ hc _ ih =>
    exact ih fun j hj => (hc.mem_instructions hj).elim (hs j) (he.declaresLiteral j)

theorem placed_perm (h : EditRun limit es s t) : t.instructions.placed.Perm
    (s.instructions.placed ++ es.flatMap fun e => e.code.placed) := by
  induction h with
  | nil => simp
  | cons hs _ hc _ ih =>
    rw [List.flatMap_cons, ← List.append_assoc]
    exact ih.trans ((hc.placed_perm hs).append_right _)

theorem targets_placed (h : EditRun limit es s t)
    (hplaced : ∀ l ∈ s.instructions.targets, l ∈ s.instructions.placed) :
    ∀ l ∈ t.instructions.targets, l ∈ t.instructions.placed := by
  induction h with
  | nil => exact hplaced
  | cons hs _ hc _ ih => exact ih (hc.targets_placed hs hplaced)

open Code

variable {L : Label → Option Nat} {B P : Nat} {D : Nat → Option Nat} {x y : Option Nat}

/-- Where depths flow through a stream, they flow through it after the edits. -/
theorem flowsBy (h : EditRun limit es s t) (hlimit : limit ≤ s.fresh)
    (hf : FlowsBy D L B x s.entries y)
    (hP : ∀ n i d, (n, i) ∈ s.entries → n < limit → D n = some d → d ≤ P ∧ i.after d ≤ P)
    (hB : ∀ e ∈ es, P + e.code.peak ≤ B)
    (hplaced : (s.instructions.placed ++ es.flatMap fun e => e.code.placed).Nodup)
    (htargets : ∀ l ∈ s.instructions.targets, l ∈ s.instructions.placed) :
    ∃ L' D', (∀ n < limit, D' n = D n) ∧ FlowsBy D' L' B x t.entries y := by
  induction h generalizing L D with
  | nil => exact ⟨L, D, fun _ _ => rfl, hf⟩
  | @cons e es i s t u hs hlt hc _ ih =>
    rw [List.flatMap_cons, ← List.append_assoc] at hplaced
    have hfresh : ∀ l ∈ e.code.placed, ∀ j ∈ s.instructions, j.label? ≠ some l := by
      intro l hl j hj hlabel
      have hmem : l ∈ s.instructions.placed :=
        (mem_placed_or_mem_targets hj hlabel).elim id (htargets l)
      exact (List.nodup_append.1 (List.nodup_append.1 hplaced).1).2.2 l hmem l hl rfl
    obtain ⟨L₁, D₁, hD₁, hf₁⟩ := hc.flowsBy hs hf (hP _ i · hc.site.2 hlt)
      (hB e List.mem_cons_self) hfresh
    have hP₁ : ∀ n i d, (n, i) ∈ t.entries → n < limit → D₁ n = some d →
        d ≤ P ∧ i.after d ≤ P := by
      intro n i d hmem hn hd
      have hold := hn.trans_le hlimit
      exact hP n i d (hc.mem_old hmem hold) hn ((hD₁ n hold).symm.trans hd)
    obtain ⟨L₂, D₂, hD₂, hf₂⟩ := ih (hlimit.trans hc.fresh_le) hf₁ hP₁
      (fun f hf => hB f (List.mem_cons_of_mem _ hf))
      ((((hc.placed_perm hs).append_right _).nodup_iff).2 hplaced) (hc.targets_placed hs htargets)
    exact ⟨L₂, D₂, fun n hn => (hD₂ n hn).trans (hD₁ n (hn.trans_le hlimit)), hf₂⟩

/-- Where depths flow through a stream after the edits, they flow through it before them. -/
theorem flowsBy_before (h : EditRun limit es s t) (hf : FlowsBy D L B x t.entries y) :
    ∃ b D', FlowsBy D' L b x s.entries y ∧
      ∀ n j, (n, j) ∈ t.entries → n < s.fresh → D' n = D n := by
  induction h with
  | nil => exact ⟨B, D, hf, fun _ _ _ _ => rfl⟩
  | cons hs _ hc hrun ih =>
    obtain ⟨b, D₁, hf₁, hD₁⟩ := ih hf
    obtain ⟨b', D₂, hf₂, hD₂⟩ := hc.flowsBy_before hs hf₁
    refine ⟨b', D₂, hf₂, fun n j hmem hn => ?_⟩
    have hn' := hn.trans_le hc.fresh_le
    exact (hD₂ n j (hrun.mem_old hmem hn') hn).trans (hD₁ n j hmem hn')

end EditRun

namespace CodeStream

open Code

variable {L : Label → Option Nat} {B id p : Nat} {s : CodeStream} {es : List (Option Nat)}
  {x y : Option Nat} {code : Code} {i : Instruction}

/-- Depths that flow through the instructions of a stream are those of their numbers. -/
theorem exists_flowsBy (s : CodeStream) (h : Flows L B x s.instructions es y) :
    ∃ D, FlowsBy D L B x s.entries y ∧
      ∀ (q n : Nat) i, s.entries[q]? = some (n, i) → D n = es[q]?.join := by
  have hlen : es.length = s.entries.length := by
    rw [h.length_eq, instructions, List.length_map]
  have hindex (q : Nat) (hq : q < s.entries.length) :
      (s.entries.map Prod.fst).idxOf s.entries[q].1 = q := by
    have := s.nodup.idxOf_getElem q (by simpa using hq)
    rwa [List.getElem_map] at this
  refine ⟨fun n => es[(s.entries.map Prod.fst).idxOf n]?.join, ?_, ?_⟩
  · have hmap : (s.entries.map fun e =>
        es[(s.entries.map Prod.fst).idxOf e.1]?.join) = es := by
      refine List.ext_getElem (by simp [hlen]) fun q hq hq' => ?_
      rw [List.getElem_map, hindex q (hlen ▸ hq')]
      simp [hq']
    rw [FlowsBy, hmap]
    exact h
  · intro q n i hq
    obtain ⟨hlt, hget⟩ := List.getElem?_eq_some_iff.1 hq
    have hq := hindex q hlt
    rw [hget] at hq
    simp only [hq]

/-- The depths that a simulation finds are those of the numbers. -/
theorem exists_flowsBy_of_simulate {summary : StackSummary} (hne : s.instructions ≠ [])
    (h : s.instructions.simulate = .ok summary) :
    ∃ D, FlowsBy D (s.instructions.labelDepth summary) summary.maxStack (some 0) s.entries none ∧
      ∀ (q n : Nat) i, s.entries[q]? = some (n, i) → D n = summary.entryDepths[q]?.join :=
  s.exists_flowsBy (flows_of_simulate hne h)

end CodeStream

theorem Plan.le_foldl_peak (es : List Edit) (n : Nat) :
    n ≤ es.foldl (fun n e => max n e.code.peak) n ∧
      ∀ e ∈ es, e.code.peak ≤ es.foldl (fun n e => max n e.code.peak) n := by
  induction es generalizing n with
  | nil => simp
  | cons e es ih =>
    obtain ⟨hn, hes⟩ := ih (max n e.code.peak)
    simp only [List.foldl_cons, List.forall_mem_cons]
    exact ⟨by omega, by omega, hes⟩

theorem Plan.le_peak {e : Edit} {es : List Edit} (h : e ∈ es) : e.code.peak ≤ Plan.peak es :=
  (Plan.le_foldl_peak es 0).2 e h

/-- A simulation finds no depth that a number does not have. -/
theorem Code.FlowsBy.eq_of_entryDepths {D : Nat → Option Nat} {L : Label → Option Nat} {B : Nat}
    {entries : List (Nat × Instruction)} {summary : StackSummary} {q n d : Nat} {i : Instruction}
    (hf : FlowsBy D L B (some 0) entries none)
    (h : Code.simulate (entries.map Prod.snd) = .ok summary) (hq : entries[q]? = some (n, i))
    (hd : summary.entryDepths[q]? = some (some d)) : D n = some d := by
  have hne : entries.map Prod.snd ≠ [] := by
    rintro hnil
    simp [List.map_eq_nil_iff.1 hnil] at hq
  simpa [hq] using entryDepths_le hne h hf hd

namespace EditRun

open Code

variable {code : Code} {before after : StackSummary} {es : List Edit} {t : CodeStream} {id : Nat}

/-- The depths before the edits flow through the code after them. -/
theorem exists_flowsBy (hne : code ≠ []) (hbefore : code.simulate = .ok before)
    (h : EditRun code.length es (CodeStream.ofList id code) t)
    (hplaced : t.instructions.placed.Nodup) :
    ∃ L D, FlowsBy D L (before.maxStack + Plan.peak es) (some 0) t.entries none ∧
      ∀ p < code.length, D p = before.entryDepths[p]?.join := by
  have hinstructions := CodeStream.instructions_ofList id code
  rw [← hinstructions] at hne hbefore
  obtain ⟨D, hf, hD⟩ := CodeStream.exists_flowsBy_of_simulate hne hbefore
  have hflows := flows_of_simulate hne hbefore
  have hbounds : ∀ n i d, (n, i) ∈ (CodeStream.ofList id code).entries → n < code.length →
      D n = some d → d ≤ before.maxStack ∧ i.after d ≤ before.maxStack := by
    intro n i d hmem _ hd
    obtain ⟨q, hq⟩ := List.getElem?_of_mem hmem
    rw [hD q n i hq, Option.join_eq_some_iff] at hd
    exact (hflows.at_index (by simp [CodeStream.instructions, hq]) hd).1.bound d rfl
  obtain ⟨labels, -, hlabels, -⟩ := simulate_eq_ok hbefore
  obtain ⟨L₁, D₁, hD₁, hf₁⟩ := h.flowsBy CodeStream.fresh_ofList.ge
    (Flows.mono hf (Nat.le_add_right _ (Plan.peak es))) hbounds
    (fun e he => Nat.add_le_add_left (Plan.le_peak he) _) (h.placed_perm.nodup_iff.1 hplaced)
    (exists_checkLabels_iff.1 ⟨labels, hlabels⟩).2
  refine ⟨L₁, D₁, hf₁, fun p hp => (hD₁ p hp).trans (hD p p code[p] ?_)⟩
  simp [CodeStream.entries_ofList, getElem?_numbered, hp]

/-- Edits raise the stack by no more than their own code does. -/
theorem exists_simulate (hbefore : code.simulate = .ok before)
    (h : EditRun code.length es (CodeStream.ofList id code) t)
    (hplaced : t.instructions.placed.Nodup) :
    ∃ after, t.instructions.simulate = .ok after ∧
      after.maxStack ≤ before.maxStack + Plan.peak es := by
  rcases eq_or_ne code [] with rfl | hne
  · cases h with
    | nil =>
      rw [CodeStream.instructions_ofList]
      exact ⟨before, hbefore, Nat.le_add_right _ _⟩
    | cons _ hlt => exact absurd hlt (Nat.not_lt_zero _)
  · obtain ⟨labels, -, hlabels, -⟩ := simulate_eq_ok hbefore
    have htargets := (exists_checkLabels_iff.1 ⟨labels, hlabels⟩).2
    obtain ⟨L, D, hf, -⟩ := exists_flowsBy hne hbefore h hplaced
    rw [← CodeStream.instructions_ofList id code] at htargets
    exact Flows.exists_simulate hf hplaced (h.targets_placed htargets)

/-- No instruction that edits keep is entered with another depth than before. -/
theorem entryDepths_eq (hbefore : code.simulate = .ok before)
    (hafter : t.instructions.simulate = .ok after)
    (h : EditRun code.length es (CodeStream.ofList id code) t)
    {p q : Nat} {i : Instruction} (hq : t.entries[q]? = some (p, i)) (hlt : p < code.length) :
    after.entryDepths[q]? = before.entryDepths[p]? := by
  have hne : code ≠ [] := List.ne_nil_of_length_pos (Nat.zero_lt_of_lt hlt)
  have hq' : t.instructions[q]? = some i := by simp [CodeStream.instructions, hq]
  have hne' : t.instructions ≠ [] := List.ne_nil_of_mem (List.mem_of_getElem? hq')
  have hmem := List.mem_of_getElem? hq
  have hfresh : p < (CodeStream.ofList id code).fresh := CodeStream.fresh_ofList.symm ▸ hlt
  have hp : (CodeStream.ofList id code).entries[p]? = some (p, i) := by
    have hold := h.mem_old hmem hfresh
    rw [CodeStream.entries_ofList] at hold ⊢
    simpa [getElem?_numbered] using mem_numbered.1 hold
  obtain ⟨x, hx⟩ := (flows_of_simulate hne' hafter).getElem?_lt (List.getElem?_eq_some_iff.1 hq').1
  obtain ⟨y, hy⟩ := (flows_of_simulate hne hbefore).getElem?_lt hlt
  -- the depths before flow through the edited code, and those after it through the code as it was
  obtain ⟨labels, -, hlabels, -⟩ := simulate_eq_ok hafter
  obtain ⟨L, D, hf, hD⟩ :=
    exists_flowsBy hne hbefore h (exists_checkLabels_iff.1 ⟨labels, hlabels⟩).1
  obtain ⟨E, hg, hE⟩ := CodeStream.exists_flowsBy_of_simulate hne' hafter
  obtain ⟨b, E', hg', hE'⟩ := h.flowsBy_before hg
  have hkept : D p = y := by rw [hD p hlt, hy, Option.join_some]
  have hkept' : E' p = x := by rw [hE' p i hmem hfresh, hE q p i hq, hx, Option.join_some]
  rw [hx, hy]
  refine congrArg some (Option.ext fun d => ⟨?_, ?_⟩)
  · rintro rfl
    exact hkept.symm.trans (hf.eq_of_entryDepths hafter hq hx)
  · rintro rfl
    rw [← CodeStream.instructions_ofList id code] at hbefore
    exact hkept'.symm.trans (hg'.eq_of_entryDepths hbefore hp hy)

end EditRun

end CodeWeaving
