import CodeWeaving.Proofs.Depth.Walk

/-! Depths assigned to the entries of code, piece by piece. Code splits where lists split: between
pieces only the depth handed on and the depths of labels count. -/
namespace CodeWeaving

/-- The first is not known, or both are the same. -/
def Covers (x y : Option Nat) : Prop := ∀ d, x = some d → y = some d

namespace Covers

variable {x y z : Option Nat}

theorem refl : Covers x x := fun _ h => h

theorem none_left : Covers none y := fun _ h => by cases h

theorem trans (h : Covers x y) (h' : Covers y z) : Covers x z := fun d hd => h' d (h d hd)

end Covers

namespace Instruction

/-- Depth handed on to the next instruction, if control goes on to it. -/
def leaves (i : Instruction) (x : Option Nat) : Option Nat :=
  if i.isTerminal then none else x.map i.after

theorem leaves_none (i : Instruction) : i.leaves none = none := by simp [leaves]

theorem leaves_eq_some {i : Instruction} {x : Option Nat} {n : Nat} :
    i.leaves x = some n ↔ i.isTerminal = false ∧ ∃ d, x = some d ∧ i.after d = n := by
  cases h : i.isTerminal <;> simp [leaves, h]

/-- A depth on entry that an instruction can do with: its operands are there, nothing rises above
the bound, and labels have the depths that it knows or sends there. -/
structure Fits (L : Label → Option Nat) (B : Nat) (i : Instruction) (x : Option Nat) : Prop where
  label : ∀ l, i = .label l → x = L l
  pops : ∀ d, x = some d → i.effect.pops ≤ d
  bound : ∀ d, x = some d → d ≤ B ∧ i.after d ≤ B
  jump : ∀ d l, x = some d → i.target? = some l → L l = some (i.after d)

namespace Fits

variable {i : Instruction} {L L' : Label → Option Nat} {B B' : Nat} {x : Option Nat}

theorem mono (h : i.Fits L B x) (hB : B ≤ B') : i.Fits L B' x where
  label := h.label
  pops := h.pops
  bound d hd := ⟨(h.bound d hd).1.trans hB, (h.bound d hd).2.trans hB⟩
  jump := h.jump

/-- Only the label that the instruction speaks of counts. -/
theorem congr_labels (h : i.Fits L B x) (hL : ∀ l, i.label? = some l → L' l = L l) :
    i.Fits L' B x where
  label l hl := by
    rw [hL l (by rw [hl]; rfl)]
    exact h.label l hl
  pops := h.pops
  bound := h.bound
  jump d l hd hl := by
    rw [hL l (by cases i <;> simp_all [target?, label?])]
    exact h.jump d l hd hl

end Fits

/-- Instructions that count as one for depths and control. -/
structure FlowsAs (j i : Instruction) : Prop where
  effect : j.effect = i.effect
  isTerminal : j.isTerminal = i.isTerminal
  target? : j.target? = i.target?
  placed? : j.placed? = i.placed?

namespace FlowsAs

variable {i j : Instruction} {L : Label → Option Nat} {B : Nat} {x : Option Nat}

theorem after (h : j.FlowsAs i) (d : Nat) : j.after d = i.after d := by
  simp only [Instruction.after, h.effect]

theorem leaves (h : j.FlowsAs i) : j.leaves x = i.leaves x := by
  have hafter : j.after = i.after := funext h.after
  simp only [Instruction.leaves, h.isTerminal, hafter]

theorem fits (h : j.FlowsAs i) (hi : i.Fits L B x) : j.Fits L B x where
  label l hl := by
    subst hl
    exact hi.label l (placed?_eq_some.1 (h.placed?.symm.trans rfl))
  pops := h.effect ▸ hi.pops
  bound d hd := h.after d ▸ hi.bound d hd
  jump d l hd hl := h.after d ▸ hi.jump d l hd (h.target? ▸ hl)

end FlowsAs

end Instruction

namespace Code

/-- Depths on entry to the instructions of a piece of code, when `x` is handed on to it and at most
`y` is handed on by it. -/
inductive Flows (L : Label → Option Nat) (B : Nat) :
    Option Nat → Code → List (Option Nat) → Option Nat → Prop where
  | nil {x y : Option Nat} (h : Covers x y) : Flows L B x [] [] y
  | cons {x y e : Option Nat} {i : Instruction} {code : Code} {es : List (Option Nat)}
      (hx : Covers x e) (hi : i.Fits L B e) (h : Flows L B (i.leaves e) code es y) :
      Flows L B x (i :: code) (e :: es) y

variable {L L' : Label → Option Nat} {B B' : Nat} {a b code : Code} {es fs : List (Option Nat)}
  {x x' y y' m : Option Nat} {s : StackSummary} {i : Instruction} {p d : Nat}

namespace Flows

theorem length_eq (h : Flows L B x code es y) : es.length = code.length := by
  induction h with
  | nil => rfl
  | cons _ _ _ ih => simp [ih]

theorem of_covers (h : Flows L B x code es y) (hx : Covers x' x) : Flows L B x' code es y := by
  cases h with
  | nil h => exact .nil (hx.trans h)
  | cons he hi h => exact .cons (hx.trans he) hi h

theorem append (ha : Flows L B x a es m) (hb : Flows L B m b fs y) :
    Flows L B x (a ++ b) (es ++ fs) y := by
  induction ha with
  | nil h => exact hb.of_covers h
  | cons hx hi _ ih => exact .cons hx hi (ih hb)

/-- What flows through code flows through its parts. -/
theorem split (h : Flows L B x (a ++ b) (es ++ fs) y) (hl : es.length = a.length) :
    ∃ m, Flows L B x a es m ∧ Flows L B m b fs y := by
  induction a generalizing x es with
  | nil =>
    obtain rfl := List.length_eq_zero_iff.1 hl
    exact ⟨x, .nil .refl, h⟩
  | cons i a ih =>
    cases es with
    | nil => simp at hl
    | cons e es =>
      cases h with
      | cons hx hi h =>
        obtain ⟨m, ha, hb⟩ := ih h (by simpa using hl)
        exact ⟨m, .cons hx hi ha, hb⟩

theorem parts (h : Flows L B x (a ++ b) es y) :
    ∃ fs gs m, es = fs ++ gs ∧ Flows L B x a fs m ∧ Flows L B m b gs y := by
  have hlen : a.length ≤ es.length := by simp [h.length_eq]
  rw [← List.take_append_drop a.length es] at h
  obtain ⟨m, ha, hb⟩ := h.split (List.length_take_of_le hlen)
  exact ⟨_, _, m, (List.take_append_drop _ _).symm, ha, hb⟩

theorem mono (h : Flows L B x code es y) (hB : B ≤ B') : Flows L B' x code es y := by
  induction h with
  | nil h => exact .nil h
  | cons hx hi _ ih => exact .cons hx (hi.mono hB) ih

/-- Only the labels that the code speaks of count. -/
theorem congr_labels (h : Flows L B x code es y)
    (hL : ∀ i ∈ code, ∀ l, i.label? = some l → L' l = L l) : Flows L' B x code es y := by
  induction h with
  | nil h => exact .nil h
  | @cons x y e i code es hx hi _ ih =>
    exact .cons hx (hi.congr_labels (hL i List.mem_cons_self))
      (ih fun j hj => hL j (List.mem_cons_of_mem _ hj))

theorem map {f : Instruction → Instruction} (h : Flows L B x code es y)
    (hf : ∀ i, (f i).FlowsAs i) : Flows L B x (code.map f) es y := by
  induction h with
  | nil h => exact .nil h
  | cons hx hi _ ih =>
    refine .cons hx ((hf _).fits hi) ?_
    rw [(hf _).leaves]
    exact ih

/-- Code that nothing reaches, with labels that nothing reaches. -/
theorem of_unreached (h : ∀ l ∈ code.placed, L l = none) :
    Flows L B none code (List.replicate code.length none) none := by
  induction code with
  | nil => exact .nil .refl
  | cons i code ih =>
    refine .cons .refl ⟨?_, by simp, by simp, by simp⟩ ?_
    · rintro l rfl
      exact (h l (mem_placed.2 List.mem_cons_self)).symm
    · rw [Instruction.leaves_none]
      exact ih fun l hl => h l (mem_placed.2 (List.mem_cons_of_mem _ (mem_placed.1 hl)))

/-- The facts at one index of the code. -/
theorem at_index (h : Flows L B x code es y) {e : Option Nat} (hi : code[p]? = some i)
    (he : es[p]? = some e) :
    i.Fits L B e ∧ (p = 0 → Covers x e) ∧ (p + 1 = code.length → Covers (i.leaves e) y) ∧
      ∀ e', es[p + 1]? = some e' → Covers (i.leaves e) e' := by
  induction h generalizing p with
  | nil => simp at hi
  | @cons x y e₀ j code es hx hj h ih =>
    cases p with
    | zero =>
      simp only [List.getElem?_cons_zero, Option.some.injEq] at hi he
      subst hi he
      refine ⟨hj, fun _ => hx, ?_, ?_⟩
      · intro hlen
        cases h with
        | nil h => exact h
        | cons => simp at hlen
      · intro e' he'
        cases h with
        | nil => simp at he'
        | cons hx =>
          simp only [Nat.zero_add, List.getElem?_cons_succ, List.getElem?_cons_zero,
            Option.some.injEq] at he'
          exact he' ▸ hx
    | succ p =>
      obtain ⟨hfits, -, hlast, hnext⟩ := ih hi he
      exact ⟨hfits, by simp, fun hlen => hlast (by simpa using hlen), hnext⟩

theorem getElem?_lt (h : Flows L B x code es y) (hp : p < code.length) :
    ∃ e, es[p]? = some e :=
  ⟨_, List.getElem?_eq_getElem (h.length_eq ▸ hp)⟩

/-- Every path through the code meets the depths assigned. -/
theorem getElem?_of_path (h : Flows L B (some 0) code es none) {d : Int}
    (hp : code.Path p d) : ∃ n : Nat, d = n ∧ es[p]? = some (some n) := by
  induction hp with
  | start =>
    cases h with
    | nil h => cases h 0 rfl
    | cons hx => exact ⟨0, rfl, by simp [hx 0 rfl]⟩
  | @next p d i _ hi ht ih =>
    obtain ⟨n, rfl, he⟩ := ih
    obtain ⟨hfits, -, hlast, hnext⟩ := h.at_index hi he
    have hleaves : i.leaves (some n) = some (i.after n) := by simp [Instruction.leaves, ht]
    refine ⟨i.after n, (Instruction.cast_after (hfits.pops n rfl)).symm, ?_⟩
    by_cases hend : p + 1 = code.length
    · cases hlast hend (i.after n) hleaves
    · obtain ⟨e, he'⟩ := h.getElem?_lt (p := p + 1) (by
        have := (List.getElem?_eq_some_iff.1 hi).1
        omega)
      rw [he', hnext e he' _ hleaves]
  | @jump p q d i l _ hi hl hq ih =>
    obtain ⟨n, rfl, he⟩ := ih
    obtain ⟨hfits, -, -, -⟩ := h.at_index hi he
    obtain ⟨e, he'⟩ := h.getElem?_lt (List.getElem?_eq_some_iff.1 hq).1
    obtain ⟨hlabel, -, -, -⟩ := h.at_index hq he'
    refine ⟨i.after n, (Instruction.cast_after (hfits.pops n rfl)).symm, ?_⟩
    rw [he', hlabel.label l rfl, hfits.jump n l rfl hl]

theorem consistent (h : Flows L B (some 0) code es none) (hplaced : code.placed.Nodup)
    (htargets : ∀ l ∈ code.targets, l ∈ code.placed) : code.Consistent where
  placedOnce := hplaced
  targetsPlaced := htargets
  noUnderflow p d i hp hi := by
    obtain ⟨n, rfl, he⟩ := h.getElem?_of_path hp
    exact_mod_cast (h.at_index hi he).1.pops n rfl
  noFallOff p d i hp hi ht := by
    obtain ⟨n, -, he⟩ := h.getElem?_of_path (hp.next hi ht)
    have := (List.getElem?_eq_some_iff.1 he).1
    rw [h.length_eq] at this
    omega
  depthsAgree p d e hd he := by
    obtain ⟨n, rfl, hn⟩ := h.getElem?_of_path hd
    obtain ⟨m, rfl, hm⟩ := h.getElem?_of_path he
    rw [hn] at hm
    obtain rfl : n = m := by simpa using hm
    rfl

/-- Code through which depths flow simulates, and stays within their bound. -/
theorem exists_simulate (h : Flows L B (some 0) code es none) (hplaced : code.placed.Nodup)
    (htargets : ∀ l ∈ code.targets, l ∈ code.placed) :
    ∃ s, code.simulate = .ok s ∧ s.maxStack ≤ B := by
  have hne : code ≠ [] := by
    rintro rfl
    cases h with
    | nil h => cases h 0 rfl
  obtain ⟨s, hs⟩ := (exists_simulate_iff hne).2 (h.consistent hplaced htargets)
  obtain ⟨p, d, i, hp, hi, hmax⟩ := (isGreatest_maxStack hne hs).1
  obtain ⟨n, rfl, he⟩ := h.getElem?_of_path hp
  obtain ⟨hfits, -, -, -⟩ := h.at_index hi he
  obtain ⟨hn, hafter⟩ := hfits.bound n rfl
  rw [← Instruction.cast_after (hfits.pops n rfl)] at hmax
  exact ⟨s, hs, by omega⟩

/-- Depths flow where they fit at every index and are handed on from one to the next. -/
theorem of_forall (hlen : es.length = code.length) (hne : code ≠ [])
    (hx : ∀ e, es[0]? = some e → Covers x e)
    (hfits : ∀ (p : Nat) i e, code[p]? = some i → es[p]? = some e → i.Fits L B e)
    (hnext : ∀ (p : Nat) i e e', code[p]? = some i → es[p]? = some e → es[p + 1]? = some e' →
      Covers (i.leaves e) e')
    (hlast : ∀ (p : Nat) i e, code[p]? = some i → es[p]? = some e → p + 1 = code.length →
      Covers (i.leaves e) y) : Flows L B x code es y := by
  induction code generalizing es x with
  | nil => exact (hne rfl).elim
  | cons i code ih =>
    cases es with
    | nil => simp at hlen
    | cons e es =>
      refine .cons (hx e rfl) (hfits 0 i e rfl rfl) ?_
      by_cases hcode : code = []
      · subst hcode
        obtain rfl : es = [] := by simpa using hlen
        exact .nil (hlast 0 i e rfl rfl rfl)
      · refine ih (by simpa using hlen) hcode (fun e' he' => hnext 0 i e e' rfl rfl he') ?_ ?_ ?_
        · exact fun p => hfits (p + 1)
        · exact fun p => hnext (p + 1)
        · exact fun p j e' hj he' hend => hlast (p + 1) j e' hj he' (by simpa using hend)

end Flows

/-- The depth a simulation has found at a label. -/
def labelDepth (code : Code) (s : StackSummary) (l : Label) : Option Nat :=
  ((code.placements 0).find? l).bind fun p => s.entryDepths[p]?.join

theorem labelDepth_eq (h : code.simulate = .ok s) {l : Label} (hp : code[p]? = some (.label l)) :
    code.labelDepth s l = s.entryDepths[p]?.join := by
  obtain ⟨labels, -, hl, -⟩ := simulate_eq_ok h
  obtain ⟨rfl, -⟩ := checkLabels_eq_ok_iff.1 hl
  rw [labelDepth, (located_of_checkLabels hl l p).2 hp]
  rfl

/-- The depths of a simulation flow. -/
theorem flows_of_simulate (hne : code ≠ []) (h : code.simulate = .ok s) :
    Flows (code.labelDepth s) s.maxStack (some 0) code s.entryDepths none := by
  have hc := consistent_of_simulate hne h
  have hlen := length_entryDepths hne h
  have hiff (p d : Nat) := entryDepths_eq_some_iff (p := p) (d := d) hne h
  have hreach {p d : Nat} {i : Instruction} (hp : code.Path p d) (hi : code[p]? = some i) :
      i.effect.pops ≤ d ∧ d ≤ s.maxStack ∧ i.after d ≤ s.maxStack := by
    have hpops : i.effect.pops ≤ d := by exact_mod_cast hc.noUnderflow p d i hp hi
    have hmax := (isGreatest_maxStack hne h).2
    have hd := hmax ⟨p, d, i, hp, hi, Or.inl rfl⟩
    have hafter := hmax ⟨p, d, i, hp, hi, Or.inr rfl⟩
    rw [← Instruction.cast_after hpops] at hafter
    exact ⟨hpops, by exact_mod_cast hd, by exact_mod_cast hafter⟩
  have hnext {p d : Nat} {i : Instruction} (hp : s.entryDepths[p]? = some (some d))
      (hi : code[p]? = some i) (ht : i.isTerminal = false) : code.Path (p + 1) (i.after d) := by
    have hpath := (hiff p d).1 hp
    rw [Instruction.cast_after (hreach hpath hi).1]
    exact hpath.next hi ht
  refine Flows.of_forall hlen hne ?_ ?_ ?_ ?_
  · rintro e he d ⟨⟩
    rw [(hiff 0 0).2 .start] at he
    exact (Option.some.inj he).symm
  · intro p i e hi he
    refine ⟨?_, ?_, ?_, ?_⟩
    · rintro l rfl
      rw [labelDepth_eq h hi, he, Option.join_some]
    · rintro d rfl
      exact (hreach ((hiff p d).1 he) hi).1
    · rintro d rfl
      exact (hreach ((hiff p d).1 he) hi).2
    · rintro d l rfl hl
      have hpath := (hiff p d).1 he
      obtain ⟨q, hq⟩ := mem_placed_iff_getElem?.1
        (hc.targetsPlaced l (mem_targets.2 ⟨i, List.mem_of_getElem? hi, hl⟩))
      have hjump := hpath.jump hi hl hq
      rw [← Instruction.cast_after (hreach hpath hi).1] at hjump
      rw [labelDepth_eq h hq, (hiff q _).2 hjump, Option.join_some]
  · intro p i e e' hi he he' n hn
    obtain ⟨ht, d, rfl, rfl⟩ := Instruction.leaves_eq_some.1 hn
    rw [(hiff _ _).2 (hnext he hi ht)] at he'
    exact (Option.some.inj he').symm
  · intro p i e hi he hend n hn
    obtain ⟨ht, d, rfl, rfl⟩ := Instruction.leaves_eq_some.1 hn
    exact (hc.noFallOff p d i ((hiff p d).1 he) hi ht hend).elim

/-- Instructions may be exchanged for others that flow as they do. -/
theorem exists_simulate_map {f : Instruction → Instruction} (hf : ∀ i, (f i).FlowsAs i)
    (hne : code ≠ []) (h : code.simulate = .ok s) :
    ∃ s', Code.simulate (code.map f) = .ok s' ∧ s'.maxStack ≤ s.maxStack := by
  obtain ⟨labels, -, hlabels, -⟩ := simulate_eq_ok h
  obtain ⟨hplaced, htargets⟩ := exists_checkLabels_iff.1 ⟨labels, hlabels⟩
  have hplacedMap : Code.placed (code.map f) = code.placed := by
    simp [placed, List.filterMap_map, (hf _).placed?]
  have htargetsMap : Code.targets (code.map f) = code.targets := by
    simp [targets, List.filterMap_map, (hf _).target?]
  exact ((flows_of_simulate hne h).map hf).exists_simulate (hplacedMap ▸ hplaced)
    (by rwa [hplacedMap, htargetsMap])

/-- A simulation finds no depth that another assignment lacks. -/
theorem entryDepths_le (hne : code ≠ []) (h : code.simulate = .ok s)
    (hf : Flows L B (some 0) code es none) (hd : s.entryDepths[p]? = some (some d)) :
    es[p]? = some (some d) := by
  obtain ⟨n, hn, he⟩ := hf.getElem?_of_path ((entryDepths_eq_some_iff hne h).1 hd)
  obtain rfl : d = n := by exact_mod_cast hn
  exact he

end Code

end CodeWeaving
