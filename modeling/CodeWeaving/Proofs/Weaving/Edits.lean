import CodeWeaving.Proofs.Depth.Straight
import CodeWeaving.Proofs.Stream.Listing
import CodeWeaving.Weaving.Plan

/-! Edits of a stream: what each does to the instructions and their anchors, and to the depths that
flow through them. -/
namespace CodeWeaving

namespace Code

variable {L L' : Label → Option Nat} {B first fresh : Nat} {D D' : Nat → Option Nat} {code : Code}
  {a b : List (Nat × Instruction)} {es : List (Option Nat)} {x y m : Option Nat}

/-- Depths by number that flow through numbered instructions. -/
def FlowsBy (D : Nat → Option Nat) (L : Label → Option Nat) (B : Nat) (x : Option Nat)
    (entries : List (Nat × Instruction)) (y : Option Nat) : Prop :=
  Flows L B x (entries.map Prod.snd) (entries.map fun e => D e.1) y

namespace FlowsBy

theorem append (ha : FlowsBy D L B x a m) (hb : FlowsBy D L B m b y) :
    FlowsBy D L B x (a ++ b) y := by
  simp only [FlowsBy, List.map_append]
  exact Flows.append ha hb

theorem split (h : FlowsBy D L B x (a ++ b) y) :
    ∃ m, FlowsBy D L B x a m ∧ FlowsBy D L B m b y := by
  simp only [FlowsBy, List.map_append] at h
  exact Flows.split h (by simp)

theorem congr (h : FlowsBy D L B x a y) (hD : ∀ e ∈ a, D' e.1 = D e.1)
    (hL : ∀ e ∈ a, ∀ l, e.2.label? = some l → L' l = L l) : FlowsBy D' L' B x a y := by
  have hmap : (a.map fun e => D' e.1) = a.map fun e => D e.1 := List.map_congr_left hD
  rw [FlowsBy, hmap]
  refine Flows.congr_labels h fun i hi l hl => ?_
  obtain ⟨e, he, rfl⟩ := List.mem_map.1 hi
  exact hL e he l hl

theorem singleton {n : Nat} {i : Instruction} (hx : Covers x (D n)) (hi : i.Fits L B (D n)) :
    FlowsBy D L B x [(n, i)] (i.leaves (D n)) :=
  .cons hx hi (.nil .refl)

/-- Depths that flow through new code are those of its numbers, whatever other numbers have. -/
theorem exists_numbered (h : Flows L B x code es y) (first : Nat) (D : Nat → Option Nat) :
    ∃ D', (∀ n < first, D' n = D n) ∧ (∀ p, D' (first + p) = es[p]?.join) ∧
      FlowsBy D' L B x (code.numbered first) y := by
  refine ⟨fun n => if n < first then D n else es[n - first]?.join, ?_, by simp, ?_⟩
  · intro n hn
    simp [hn]
  · have hmap : ((code.numbered first).map fun e =>
        if e.1 < first then D e.1 else es[e.1 - first]?.join) = es := by
      rw [← Function.comp_def (fun n => if n < first then D n else es[n - first]?.join) Prod.fst,
        ← List.map_map, map_fst_numbered, ← h.length_eq]
      refine List.ext_getElem (by simp) fun p hp hp' => ?_
      simp [hp']
    simpa only [FlowsBy, map_snd_numbered, hmap] using h

/-- Code that leaves the stack as it was brings its own numbers and labels. -/
theorem exists_inserted (first : Nat) (L : Label → Option Nat) (D : Nat → Option Nat)
    (h : ∀ d, m = some d → code.Neutral d) (hB : ∀ d, m = some d → d + code.peak ≤ B) :
    ∃ L' D', (∀ l ∉ code.placed, L' l = L l) ∧ (∀ n < first, D' n = D n) ∧
      FlowsBy D' L' B m (code.numbered first) m := by
  obtain ⟨es, hes⟩ := Neutral.flows_of_entry (L := fun l => if l ∈ code.placed then m else L l) h
    (fun l hl => if_pos hl) hB
  obtain ⟨D', hD, -, hflows⟩ := exists_numbered hes first D
  exact ⟨_, D', fun l hl => if_neg hl, hD, hflows⟩

end FlowsBy

end Code

namespace Edit

variable {e : Edit} {i j : Instruction} {s s' : CodeStream}

/-- Code that an edit may bring in at an instruction: inserted code leaves the stack as it was,
replacing code does what the instruction does. -/
def Suits (i : Instruction) : Edit → Prop
  | .insertBefore _ code => ∀ d, i.effect.pops ≤ d → code.Neutral d
  | .insertAfter _ code => ∀ d, i.effect.pushes ≤ d → code.Neutral d
  | .replace _ code => code.StandsFor i

namespace Suits

theorem targets_subset (h : e.Suits i) : ∀ l ∈ e.code.targets, l ∈ e.code.placed := by
  cases e with
  | insertBefore a code => exact (h _ (Nat.le_refl _)).targets_subset
  | insertAfter a code => exact (h _ (Nat.le_refl _)).targets_subset
  | replace a code =>
    have htargets := Code.targets_of_depthAfter? (Code.StandsFor.straight h)
    simp [Edit.code, htargets]

theorem declaresLiteral (h : e.Suits i) : ∀ j ∈ e.code, j.declaresLiteral = true := by
  cases e with
  | insertBefore a code => exact (h _ (Nat.le_refl _)).declaresLiteral
  | insertAfter a code => exact (h _ (Nat.le_refl _)).declaresLiteral
  | replace a code =>
    intro j hj
    exact (Instruction.isPlain_iff.1
      (Code.isPlain_of_depthAfter? (Code.StandsFor.straight h) j hj)).2.2

end Suits

/-- What stands in the place of an instruction after an edit there. -/
def expand (fresh : Nat) (i : Instruction) : Edit → List (Nat × Instruction)
  | .insertBefore a code => code.numbered fresh ++ [(a.index, i)]
  | .insertAfter a code => (a.index, i) :: code.numbered fresh
  | .replace _ code => code.numbered fresh

/-- What an edit at an instruction does to a stream. -/
structure Changes (e : Edit) (i : Instruction) (s s' : CodeStream) : Prop where
  site : s.Names e.anchor i
  id : s'.id = s.id
  fresh : s'.fresh = s.fresh + e.code.length
  entries : ∃ before after, s.entries = before ++ (e.anchor.index, i) :: after ∧
    s'.entries = before ++ (e.expand s.fresh i ++ after)

end Edit

namespace Edit

variable {e : Edit} {i j : Instruction} {s s' : CodeStream} {a : Anchor} {n fresh : Nat}

theorem exists_apply (h : s.Names e.anchor i) : ∃ s', e.apply s = .ok s' ∧ e.Changes i s s' := by
  obtain ⟨before, after, hsplit⟩ := List.append_of_mem h.2
  cases e with
  | insertBefore a code =>
    obtain ⟨t, ht, hid, hfresh, hentries⟩ := CodeStream.exists_insertBefore code h.1 hsplit
    exact ⟨t, ht, h, hid, hfresh, before, after, hsplit, by simp [hentries, expand, anchor]⟩
  | insertAfter a code =>
    obtain ⟨t, ht, hid, hfresh, hentries⟩ := CodeStream.exists_insertAfter code h.1 hsplit
    exact ⟨t, ht, h, hid, hfresh, before, after, hsplit, by simp [hentries, expand, anchor]⟩
  | replace a code =>
    obtain ⟨t, ht, hid, hfresh, hentries⟩ := CodeStream.exists_replace code h.1 hsplit
    exact ⟨t, ht, h, hid, hfresh, before, after, hsplit, by simp [hentries, expand]⟩

theorem lt_of_mem_expand (hn : (n, j) ∈ e.expand fresh i) (hlt : n < fresh) :
    n = e.anchor.index ∧ j = i := by
  have hnumbered {code : Code} : (n, j) ∉ code.numbered fresh := fun hmem =>
    Nat.not_lt.2 (Code.le_of_mem_numbered hmem) hlt
  cases e <;> simp_all [expand, anchor]

namespace Changes

variable {L : Label → Option Nat} {B P : Nat} {D : Nat → Option Nat} {l : Label}

theorem lt_fresh (h : e.Changes i s s') : e.anchor.index < s.fresh := s.below _ h.site.2

theorem fresh_le (h : e.Changes i s s') : s.fresh ≤ s'.fresh := by
  rw [h.fresh]
  omega

/-- What was there before the edit and is there after it. -/
theorem mem_old (h : e.Changes i s s') (hmem : (n, j) ∈ s'.entries) (hn : n < s.fresh) :
    (n, j) ∈ s.entries := by
  obtain ⟨before, after, hs, hs'⟩ := h.entries
  simp only [hs', hs, List.mem_append, List.mem_cons] at hmem ⊢
  rcases hmem with hmem | hmem | hmem
  · exact .inl hmem
  · obtain ⟨rfl, rfl⟩ := lt_of_mem_expand hmem hn
    exact .inr (.inl rfl)
  · exact .inr (.inr hmem)

/-- An edit takes nothing away but what it replaces. -/
theorem mem_new (h : e.Changes i s s') (hmem : (n, j) ∈ s.entries)
    (hkept : n ≠ e.anchor.index ∨ ∀ code, e ≠ .replace e.anchor code) :
    (n, j) ∈ s'.entries := by
  obtain ⟨before, after, hs, hs'⟩ := h.entries
  simp only [hs', hs, List.mem_append, List.mem_cons] at hmem ⊢
  rcases hmem with hmem | hmem | hmem
  · exact .inl hmem
  · obtain ⟨rfl, rfl⟩ := Prod.mk.inj hmem
    refine .inr (.inl ?_)
    cases e <;> simp_all [expand, anchor]
  · exact .inr (.inr hmem)

theorem names (h : e.Changes i s s') (ha : s.Names a j)
    (hkept : a ≠ e.anchor ∨ ∀ code, e ≠ .replace e.anchor code) : s'.Names a j := by
  refine ⟨ha.1.trans h.id.symm, h.mem_new ha.2 (hkept.imp_left ?_)⟩
  intro hne hindex
  refine hne ?_
  calc a = ⟨a.stream, a.index⟩ := rfl
    _ = ⟨e.anchor.stream, e.anchor.index⟩ := by rw [ha.1.trans h.site.1.symm, hindex]

theorem mem_instructions (h : e.Changes i s s') (hj : j ∈ s'.instructions) :
    j ∈ s.instructions ∨ j ∈ e.code := by
  obtain ⟨before, after, hs, hs'⟩ := h.entries
  simp only [CodeStream.instructions, hs', hs, List.map_append, List.mem_append, List.map_cons,
    List.mem_cons] at hj ⊢
  rcases hj with hj | hj | hj
  · exact .inl (.inl hj)
  · cases e <;>
      simp only [expand, List.map_append, Code.map_snd_numbered, List.map_cons, List.map_nil,
        List.mem_append, List.mem_cons, List.not_mem_nil, or_false] at hj <;>
      simp only [code]
    · tauto
    · tauto
    · exact .inr hj
  · exact .inl (.inr (.inr hj))

theorem placed_perm (h : e.Changes i s s') (hs : e.Suits i) :
    s'.instructions.placed.Perm (s.instructions.placed ++ e.code.placed) := by
  have hsite : (Code.placed ((e.expand s.fresh i).map Prod.snd)).Perm
      (Code.placed [i] ++ e.code.placed) := by
    cases e with
    | insertBefore a code =>
      simpa [expand, Code.map_snd_numbered, Edit.code] using List.perm_append_comm
    | insertAfter a code =>
      rw [← Code.placed_append]
      simp [expand, Code.map_snd_numbered, Edit.code]
    | replace a code =>
      have hi := Instruction.placed?_of_isPlain (Code.StandsFor.isPlain hs)
      simp [expand, Code.map_snd_numbered, Edit.code, hi, Code.placed]
  obtain ⟨before, after, hsplit, hsplit'⟩ := h.entries
  simp only [CodeStream.instructions, hsplit, hsplit', List.map_append, List.map_cons,
    Code.placed_append]
  rw [← List.singleton_append, Code.placed_append, List.append_assoc]
  refine .append_left _ ((hsite.append_right _).trans ?_)
  rw [List.append_assoc, List.append_assoc]
  exact .append_left _ List.perm_append_comm

theorem targets_placed (h : e.Changes i s s') (hs : e.Suits i)
    (hplaced : ∀ l ∈ s.instructions.targets, l ∈ s.instructions.placed) :
    ∀ l ∈ s'.instructions.targets, l ∈ s'.instructions.placed := by
  intro l hl
  rw [(h.placed_perm hs).mem_iff, List.mem_append]
  obtain ⟨j, hj, htarget⟩ := Code.mem_targets.1 hl
  rcases h.mem_instructions hj with hj | hj
  · exact .inl (hplaced l (Code.mem_targets.2 ⟨j, hj, htarget⟩))
  · exact .inr (hs.targets_subset l (Code.mem_targets.2 ⟨j, hj, htarget⟩))

end Changes

variable {L : Label → Option Nat} {B P : Nat} {D : Nat → Option Nat} {m x y : Option Nat}

open Code in
/-- Depths that flow through an instruction flow through what an edit makes of it. -/
theorem Suits.flowsBy_expand (h : e.Suits i) (hlt : e.anchor.index < fresh)
    (hx : Covers m (D e.anchor.index)) (hi : i.Fits L P (D e.anchor.index))
    (hB : P + e.code.peak ≤ B) (hfresh : ∀ l ∈ e.code.placed, i.label? ≠ some l) :
    ∃ L' D', (∀ l ∉ e.code.placed, L' l = L l) ∧ (∀ n < fresh, D' n = D n) ∧
      FlowsBy D' L' B m (e.expand fresh i) (i.leaves (D e.anchor.index)) := by
  have hfits : i.Fits L B (D e.anchor.index) := hi.mono (by omega)
  have hpeak {d : Nat} (hd : d ≤ P) : d + e.code.peak ≤ B := by omega
  have hsite {L' : Label → Option Nat} {D' : Nat → Option Nat} {z : Option Nat}
      (hz : Covers z (D e.anchor.index)) (hL : ∀ l ∉ e.code.placed, L' l = L l)
      (hD : ∀ n < fresh, D' n = D n) :
      FlowsBy D' L' B z [(e.anchor.index, i)] (i.leaves (D e.anchor.index)) := by
    rw [← hD _ hlt] at hz hfits ⊢
    refine .singleton hz (hfits.congr_labels fun l hl => hL l fun hmem => hfresh l hmem hl)
  cases e with
  | insertBefore a code =>
    obtain ⟨L', D', hL, hD, hcode⟩ := FlowsBy.exists_inserted (m := m) (B := B)
      fresh L D (fun d hd => h d (hi.pops d (hx d hd))) fun d hd => hpeak (hi.bound d (hx d hd)).1
    exact ⟨L', D', hL, hD, hcode.append (hsite hx hL hD)⟩
  | insertAfter a code =>
    obtain ⟨L', D', hL, hD, hcode⟩ := FlowsBy.exists_inserted (B := B)
      (m := i.leaves (D a.index)) fresh L D
      (fun d hd => by
        obtain ⟨-, n, -, rfl⟩ := Instruction.leaves_eq_some.1 hd
        exact h _ (Nat.le_add_left _ _))
      (fun d hd => by
        obtain ⟨-, n, hn, rfl⟩ := Instruction.leaves_eq_some.1 hd
        exact hpeak (hi.bound n hn).2)
    exact ⟨L', D', hL, hD, (hsite hx hL hD).append hcode⟩
  | replace a code =>
    obtain ⟨es, hes⟩ := Code.StandsFor.flows h hfits fun d hd => hpeak (hi.bound d hd).1
    obtain ⟨D', hD', -, hflows⟩ := FlowsBy.exists_numbered (hes.of_covers hx) fresh D
    exact ⟨L, D', fun _ _ => rfl, hD', hflows⟩

open Code in
/-- Depths that flow through what an edit has made of an instruction flow through the instruction,
which has its depth if it is still there. -/
theorem Suits.fits_of_expand (h : e.Suits i) (hlt : e.anchor.index < fresh)
    (hf : FlowsBy D L B m (e.expand fresh i) y) :
    ∃ b d, Covers m d ∧ i.Fits L b d ∧ Covers (i.leaves d) y ∧
      ((e.anchor.index, i) ∈ e.expand fresh i → d = D e.anchor.index) := by
  cases e with
  | insertBefore a code =>
    obtain ⟨z, hcode, hsite⟩ := FlowsBy.split hf
    simp only [FlowsBy, Code.map_snd_numbered] at hcode
    cases hsite with
    | cons hz hi hy =>
      have hcovers := Code.Neutral.covers (h _ (Nat.le_refl _)) hcode
      cases hy with
      | nil hy => exact ⟨B, _, hcovers.trans hz, hi, hy, fun _ => rfl⟩
  | insertAfter a code =>
    cases hf with
    | cons hm hi hcode =>
      simp only [Code.map_snd_numbered] at hcode
      exact ⟨B, _, hm, hi, Code.Neutral.covers (h _ (Nat.le_refl _)) hcode, fun _ => rfl⟩
  | replace a code =>
    simp only [FlowsBy, expand, Code.map_snd_numbered] at hf
    obtain ⟨b, hi, hy⟩ := Code.StandsFor.fits h hf
    refine ⟨b, m, .refl, hi, hy, fun hmem => ?_⟩
    exact absurd (Code.le_of_mem_numbered hmem) (Nat.not_le.2 hlt)

namespace Changes

open Code

/-- Where depths flow through a stream, they flow through it after an edit. -/
theorem flowsBy (h : e.Changes i s s') (hs : e.Suits i) (hf : FlowsBy D L B x s.entries y)
    (hP : ∀ d, D e.anchor.index = some d → d ≤ P ∧ i.after d ≤ P) (hB : P + e.code.peak ≤ B)
    (hfresh : ∀ l ∈ e.code.placed, ∀ j ∈ s.instructions, j.label? ≠ some l) :
    ∃ L' D', (∀ n < s.fresh, D' n = D n) ∧ FlowsBy D' L' B x s'.entries y := by
  obtain ⟨before, after, hsplit, hsplit'⟩ := h.entries
  have hlabel (k : Nat × Instruction) (hk : k ∈ s.entries) (l : Label)
      (hl : k.2.label? = some l) : l ∉ e.code.placed := fun hmem =>
    hfresh l hmem k.2 (List.mem_map_of_mem hk) hl
  have hbefore (k : Nat × Instruction) (hk : k ∈ before) : k ∈ s.entries := by simp [hsplit, hk]
  have hafter (k : Nat × Instruction) (hk : k ∈ after) : k ∈ s.entries := by simp [hsplit, hk]
  rw [hsplit] at hf
  obtain ⟨m, hb, hf⟩ := hf.split
  cases hf with
  | cons hm hi ha =>
    obtain ⟨L', D', hL, hD, hsite⟩ := hs.flowsBy_expand h.lt_fresh hm
      ⟨hi.label, hi.pops, hP, hi.jump⟩ hB fun l hl => hfresh l hl i (List.mem_map_of_mem h.site.2)
    refine ⟨L', D', hD, ?_⟩
    rw [hsplit']
    refine .append (hb.congr ?_ ?_) (.append hsite (FlowsBy.congr ha ?_ ?_))
    · exact fun k hk => hD _ (s.below k (hbefore k hk))
    · exact fun k hk l hl => hL l (hlabel k (hbefore k hk) l hl)
    · exact fun k hk => hD _ (s.below k (hafter k hk))
    · exact fun k hk l hl => hL l (hlabel k (hafter k hk) l hl)

/-- Where depths flow through a stream after an edit, they flow through it before the edit. -/
theorem flowsBy_before (h : e.Changes i s s') (hs : e.Suits i)
    (hf : FlowsBy D L B x s'.entries y) :
    ∃ b D', FlowsBy D' L b x s.entries y ∧
      ∀ n j, (n, j) ∈ s'.entries → n < s.fresh → D' n = D n := by
  obtain ⟨before, after, hsplit, hsplit'⟩ := h.entries
  have hne := CodeStream.ne_of_split hsplit
  rw [hsplit'] at hf
  obtain ⟨m, hb, hf⟩ := hf.split
  obtain ⟨m', hsite, ha⟩ := hf.split
  obtain ⟨b, d, hm, hi, hy, hkept⟩ := hs.fits_of_expand h.lt_fresh hsite
  have hold (k : Nat × Instruction) (hk : k ∈ before ∨ k ∈ after) :
      Function.update D e.anchor.index d k.1 = D k.1 :=
    Function.update_of_ne (hne k hk) _ _
  refine ⟨max B b, Function.update D e.anchor.index d, ?_, ?_⟩
  · rw [hsplit]
    refine .append (FlowsBy.congr (Flows.mono hb (le_max_left _ _))
      (fun k hk => hold k (.inl hk)) fun _ _ _ _ => rfl) ?_
    refine .append (b := after) (a := [(e.anchor.index, i)]) (.singleton ?_ ?_)
      (FlowsBy.congr (Flows.mono (ha.of_covers ?_) (le_max_left _ _))
      (fun k hk => hold k (.inr hk)) fun _ _ _ _ => rfl)
    · rwa [Function.update_self]
    · rw [Function.update_self]
      exact hi.mono (le_max_right _ _)
    · rwa [Function.update_self]
  · intro n j hmem hn
    rw [hsplit', List.mem_append, List.mem_append] at hmem
    rcases hmem with hmem | hmem | hmem
    · exact hold _ (.inl hmem)
    · obtain ⟨rfl, rfl⟩ := lt_of_mem_expand hmem hn
      rw [Function.update_self, hkept hmem]
    · exact hold _ (.inr hmem)

end Changes

end Edit

end CodeWeaving
