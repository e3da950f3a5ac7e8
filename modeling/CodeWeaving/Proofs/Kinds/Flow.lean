import CodeWeaving.Proofs.Kinds.Frames
import CodeWeaving.Proofs.Machine.Execution
import CodeWeaving.Proofs.Weaving.Layout

/-! Kinds given to the places of a method body, and how they flow through it piece by piece. -/
namespace CodeWeaving

/-- Whatever comes is known, perhaps with less about the locals. -/
def Covered (x y : Option KindFrame) : Prop := ∀ g, x = some g → ∃ f, y = some f ∧ f.Below g

namespace Covered

variable {x y z : Option KindFrame} {g : KindFrame}

theorem refl : Covered x x := fun g h => ⟨g, h, .refl⟩

theorem none_left : Covered none y := fun _ h => by cases h

theorem trans (h : Covered x y) (h' : Covered y z) : Covered x z := by
  intro g hg
  obtain ⟨f, hf, hbelow⟩ := h g hg
  obtain ⟨e, he, hbelow'⟩ := h' f hf
  exact ⟨e, he, hbelow'.trans hbelow⟩

end Covered

namespace Code

variable {code a b : Code} {entry f g : KindFrame} {T : Nat → Option KindFrame} {p n : Nat}
  {L : Label → Option KindFrame} {x x' y z : Option KindFrame} {i : Instruction}

/-- Frames on entry to the instructions of a body, none where no path leads. Every instruction
finds its operands and locals in its frame, and what it makes of the frame covers the frames of
wherever control goes. Where paths meet, the stacks are the same, and of the locals no more is known
than all of them know. -/
structure Kinded (code : Code) (entry : KindFrame) (T : Nat → Option KindFrame) : Prop where
  entry : ∃ f, T 0 = some f ∧ f.Below entry
  step : ∀ p i f, code[p]? = some i → T p = some f → ∃ g, i.kindsAfter? f = some g ∧
    (i.isTerminal = false → ∃ h, T (p + 1) = some h ∧ h.Below g) ∧
    ∀ l, i.target? = some l → ∃ q h, code[q]? = some (.label l) ∧ T q = some h ∧ h.Below g

/-- The frame with which control comes to a place from right before it, if it does. -/
def handed (code : Code) (entry : KindFrame) (T : Nat → Option KindFrame) :
    Nat → Option KindFrame
  | 0 => some entry
  | p + 1 => do
    let i ← code[p]?
    let f ← T p
    if i.isTerminal then none else i.kindsAfter? f

theorem handed_succ_eq_some : code.handed entry T (p + 1) = some g ↔
    ∃ i f, code[p]? = some i ∧ T p = some f ∧ i.isTerminal = false ∧
      i.kindsAfter? f = some g := by
  simp only [handed, Option.bind_eq_bind, Option.bind_eq_some_iff, Option.ite_none_left_eq_some,
    Bool.not_eq_true]
  constructor
  · rintro ⟨i, hi, f, hf, hg⟩
    exact ⟨i, f, hi, hf, hg⟩
  · rintro ⟨i, f, hi, hf, hg⟩
    exact ⟨i, hi, f, hf, hg⟩

namespace Kinded

theorem covered (h : code.Kinded entry T) (p : Nat) : Covered (code.handed entry T p) (T p) := by
  intro g hg
  cases p with
  | zero =>
    cases hg
    exact h.entry
  | succ p =>
    obtain ⟨i, f, hi, hf, hnext, hafter⟩ := handed_succ_eq_some.1 hg
    obtain ⟨g', hg', hgo, -⟩ := h.step p i f hi hf
    cases hafter.symm.trans hg'
    exact hgo hnext

/-- What is known of slots that the code does not name may be forgotten. -/
theorem cut (h : code.Kinded entry T) (hn : ∀ i ∈ code, i.localsNeeded ≤ n) :
    code.Kinded (entry.cut n) fun p => (T p).map (KindFrame.cut n) where
  entry := by
    obtain ⟨f, hf, hbelow⟩ := h.entry
    exact ⟨f.cut n, congrArg (Option.map _) hf, hbelow.cut⟩
  step := by
    intro p i _ hi hcut
    obtain ⟨f, hf, rfl⟩ := Option.map_eq_some_iff.1 hcut
    obtain ⟨g, hg, hnext, hjump⟩ := h.step p i f hi hf
    refine ⟨g.cut n, Instruction.kindsAfter?_cut hg (hn i (List.mem_of_getElem? hi)), ?_, ?_⟩
    · intro ht
      obtain ⟨k, hk, hbelow⟩ := hnext ht
      exact ⟨k.cut n, congrArg (Option.map _) hk, hbelow.cut⟩
    · intro l hl
      obtain ⟨q, k, hq, hk, hbelow⟩ := hjump l hl
      exact ⟨q, k.cut n, hq, congrArg (Option.map _) hk, hbelow.cut⟩

theorem handed_cut (h : code.Kinded entry T) (hn : ∀ i ∈ code, i.localsNeeded ≤ n) :
    code.handed (entry.cut n) (fun p => (T p).map (KindFrame.cut n)) p =
      (code.handed entry T p).map (KindFrame.cut n) := by
  cases p with
  | zero => rfl
  | succ p =>
    cases hi : code[p]? with
    | none => simp [handed, hi]
    | some i =>
      cases hf : T p with
      | none => simp [handed, hi, hf]
      | some f =>
        obtain ⟨g, hg, -⟩ := h.step p i f hi hf
        have hcut := Instruction.kindsAfter?_cut hg (hn i (List.mem_of_getElem? hi))
        by_cases ht : i.isTerminal = true
        · simp [handed, hi, hf, ht]
        · simp [handed, hi, hf, ht, hg, hcut]

end Kinded

/-- A frame that an instruction can do with, where `z` is handed on at most. -/
structure FitsKinds (L : Label → Option KindFrame) (i : Instruction) (x z : Option KindFrame) :
    Prop where
  label : ∀ l, i = .label l → x = L l
  step : ∀ f, x = some f → ∃ g, i.kindsAfter? f = some g ∧
    (i.isTerminal = false → Covered (some g) z) ∧
    ∀ l, i.target? = some l → Covered (some g) (L l)

/-- Kinds flow through a piece of code when `x` is handed on to it and at most `y` by it. -/
inductive KindFlows (L : Label → Option KindFrame) :
    Option KindFrame → Code → Option KindFrame → Prop where
  | nil {x y : Option KindFrame} (h : Covered x y) : KindFlows L x [] y
  | cons {x y z e : Option KindFrame} {i : Instruction} {code : Code} (hx : Covered x e)
      (hi : FitsKinds L i e z) (h : KindFlows L z code y) : KindFlows L x (i :: code) y

namespace KindFlows

theorem of_covered (h : KindFlows L x code y) (hx : Covered x' x) : KindFlows L x' code y := by
  cases h with
  | nil h => exact .nil (hx.trans h)
  | cons he hi h => exact .cons (hx.trans he) hi h

theorem append (ha : KindFlows L x a z) (hb : KindFlows L z b y) : KindFlows L x (a ++ b) y := by
  induction ha with
  | nil h => exact hb.of_covered h
  | cons hx hi _ ih => exact .cons hx hi (ih hb)

theorem to_covered (h : KindFlows L x code y) (hy : Covered y z) : KindFlows L x code z := by
  induction h with
  | nil h => exact .nil (h.trans hy)
  | cons hx hi _ ih => exact .cons hx hi (ih hy)

/-- Kinds that flow are kinds of places. -/
theorem exists_frames (h : KindFlows L x code y) : ∃ T : Nat → Option KindFrame,
    Covered x (T 0) ∧ (∀ q l, code[q]? = some (.label l) → T q = L l) ∧
      ∀ p i f, code[p]? = some i → T p = some f → ∃ g, i.kindsAfter? f = some g ∧
        (i.isTerminal = false → Covered (some g) (T (p + 1))) ∧
        ∀ l, i.target? = some l → Covered (some g) (L l) := by
  induction h with
  | @nil x y h => exact ⟨fun _ => y, h, by simp, by simp⟩
  | @cons x y z e i code hx hi _ ih =>
    obtain ⟨T, hz, hlabels, hsteps⟩ := ih
    refine ⟨fun p => match p with | 0 => e | p + 1 => T p, hx, ?_, ?_⟩
    · intro q l hq
      cases q with
      | zero => exact hi.label l (Option.some.inj hq)
      | succ q => exact hlabels q l hq
    · intro p j f hj hf
      cases p with
      | zero =>
        cases hj
        obtain ⟨g, hg, hnext, hjump⟩ := hi.step f hf
        exact ⟨g, hg, fun ht => (hnext ht).trans hz, hjump⟩
      | succ p => exact hsteps p j f hj hf

theorem exists_kinded (h : KindFlows L (some entry) code y)
    (htargets : ∀ l ∈ code.targets, l ∈ code.placed) : ∃ T, code.Kinded entry T := by
  obtain ⟨T, hentry, hlabels, hsteps⟩ := h.exists_frames
  refine ⟨T, hentry entry rfl, ?_⟩
  intro p i f hi hf
  obtain ⟨g, hg, hnext, hjump⟩ := hsteps p i f hi hf
  refine ⟨g, hg, fun ht => hnext ht g rfl, ?_⟩
  intro l hl
  obtain ⟨k, hk, hbelow⟩ := hjump l hl g rfl
  obtain ⟨q, hq⟩ := mem_placed_iff_getElem?.1
    (htargets l (mem_targets.2 ⟨i, List.mem_of_getElem? hi, hl⟩))
  exact ⟨q, k, hq, (hlabels q l hq).trans hk, hbelow⟩

end KindFlows

/-- The frame after straight code. -/
def kindsAfter? (code : Code) (f : KindFrame) : Option KindFrame :=
  code.foldlM (fun f i => i.kindsAfter? f) f

theorem kindsAfter?_cons : kindsAfter? (i :: code) f = (i.kindsAfter? f).bind code.kindsAfter? :=
  List.foldlM_cons

theorem kindsAfter?_append : (a ++ b).kindsAfter? f = (a.kindsAfter? f).bind b.kindsAfter? :=
  List.foldlM_append

theorem kindFlows_of_straight (hplain : ∀ i ∈ code, i.isPlain = true)
    (h : code.kindsAfter? f = some g) : KindFlows L (some f) code (some g) := by
  induction code generalizing f with
  | nil =>
    cases h
    exact .nil .refl
  | cons i code ih =>
    rw [kindsAfter?_cons] at h
    obtain ⟨k, hk, h⟩ := Option.bind_eq_some_iff.1 h
    obtain ⟨hnext, hlabel, -⟩ := Instruction.isPlain_iff.1 (hplain i List.mem_cons_self)
    refine .cons .refl ⟨?_, ?_⟩ (ih (fun j hj => hplain j (List.mem_cons_of_mem _ hj)) h)
    · rintro l rfl
      cases hlabel
    · rintro _ ⟨⟩
      refine ⟨k, hk, fun _ => .refl, ?_⟩
      intro l hl
      rw [Instruction.target?_of_isPlain (hplain i List.mem_cons_self)] at hl
      cases hl

theorem kindFlows_of_unreached (hplaced : ∀ l ∈ code.placed, L l = none) :
    KindFlows L none code y := by
  induction code with
  | nil => exact .nil .none_left
  | cons i code ih =>
    refine .cons .refl ⟨?_, ?_⟩ (ih fun l hl => hplaced l ?_)
    · rintro l rfl
      exact (hplaced l (mem_placed.2 List.mem_cons_self)).symm
    · intro f hf
      cases hf
    · exact mem_placed.2 (List.mem_cons_of_mem _ (mem_placed.1 hl))

/-- Kinds flow through an instruction as they are given to its place. -/
theorem Kinded.kindFlows_single (h : code.Kinded entry T)
    (hL : ∀ q l, code[q]? = some (.label l) → L l = T q) (hi : code[p]? = some i) :
    KindFlows L (code.handed entry T p) [i] (code.handed entry T (p + 1)) := by
  refine .cons (h.covered p) ⟨?_, ?_⟩ (.nil .refl)
  · rintro l rfl
    exact (hL p l hi).symm
  · intro f hf
    obtain ⟨g, hg, -, hjump⟩ := h.step p i f hi hf
    refine ⟨g, hg, ?_, ?_⟩
    · intro ht
      rw [handed_succ_eq_some.2 ⟨i, f, hi, hf, ht, hg⟩]
      exact .refl
    · intro l hl
      obtain ⟨q, k, hq, hk, hbelow⟩ := hjump l hl
      rintro _ ⟨⟩
      exact ⟨k, (hL q l hq).trans hk, hbelow⟩

end Code

/-- The place between instructions where the code of an insertion goes. -/
def Edit.gap : Edit → Nat
  | .insertBefore a _ | .replace a _ => a.index
  | .insertAfter a _ => a.index + 1

/-- Kinds flow through the edit's code, if its labels are told so, as if it were not there. -/
structure Edit.FitsKinds (x : Option KindFrame) (e : Edit) : Prop where
  inserts : ∀ code, e ≠ .replace e.anchor code
  flows : ∀ L : Label → Option KindFrame, (∀ l ∈ e.code.placed, L l = x) →
    Code.KindFlows L x e.code x

namespace Code

variable {code : Code} {entry : KindFrame} {T : Nat → Option KindFrame}
  {L : Label → Option KindFrame} {es : List Edit} {first : Nat → Nat} {p : Nat} {i : Instruction}

theorem Kinded.kindFlows_block (h : code.Kinded entry T)
    (hL : ∀ q l, code[q]? = some (.label l) → L l = T q)
    (hes : ∀ e ∈ es, e.FitsKinds (code.handed entry T e.gap) ∧
      ∀ l ∈ e.code.placed, L l = code.handed entry T e.gap)
    (hi : code[p]? = some i) :
    KindFlows L (code.handed entry T p) ((Plan.block es first (p, i)).map Prod.snd)
      (code.handed entry T (p + 1)) := by
  have hsingle := h.kindFlows_single hL hi
  unfold Plan.block
  split
  · rename_i e he
    have hindex : e.anchor.index = p := by simpa using List.find?_some he
    obtain ⟨hfits, hlabels⟩ := hes e (List.mem_of_find?_eq_some he)
    have hcode := hfits.flows L hlabels
    cases e with
    | insertBefore a c =>
      subst hindex
      simpa [Edit.expand, Edit.gap, Edit.code, Edit.anchor, Code.map_snd_numbered]
        using hcode.append hsingle
    | insertAfter a c =>
      subst hindex
      simpa [Edit.expand, Edit.gap, Edit.code, Edit.anchor, Code.map_snd_numbered]
        using hsingle.append hcode
    | replace a c => exact absurd rfl (hfits.inserts c)
  · exact hsingle

/-- Kinds flow through code with insertions as they do through the code itself. -/
theorem Kinded.kindFlows_layout (h : code.Kinded entry T)
    (hL : ∀ q l, code[q]? = some (.label l) → L l = T q)
    (hes : ∀ e ∈ es, e.FitsKinds (code.handed entry T e.gap) ∧
      ∀ l ∈ e.code.placed, L l = code.handed entry T e.gap) (first : Nat → Nat) (p : Nat) :
    ∃ y, KindFlows L (code.handed entry T p)
      ((Plan.layout es first p (code.drop p)).map Prod.snd) y := by
  generalize hsuffix : code.drop p = suffix
  induction suffix generalizing p with
  | nil => exact ⟨_, .nil .refl⟩
  | cons i suffix ih =>
    obtain ⟨hi, hrest⟩ := Machine.Surroundings.getElem?_of_drop hsuffix
    obtain ⟨y, hy⟩ := ih (p + 1) hrest
    rw [Plan.layout_cons, List.map_append]
    exact ⟨y, (h.kindFlows_block hL hes hi).append hy⟩

end Code

/-- Values given to different keys are those of a function. -/
theorem exists_lookup {α β : Type} [Inhabited β] {pairs : List (α × β)}
    (h : (pairs.map Prod.fst).Nodup) :
    ∃ f : α → β, ∀ x ∈ pairs, f x.1 = x.2 := by
  classical
  refine ⟨fun a => if h : ∃ x ∈ pairs, x.1 = a then h.choose.2 else default, ?_⟩
  intro x hx
  have hexists : ∃ y ∈ pairs, y.1 = x.1 := ⟨x, hx, rfl⟩
  dsimp only
  rw [dif_pos hexists]
  obtain ⟨hmem, hkey⟩ := hexists.choose_spec
  rw [List.inj_on_of_nodup_map h hmem hx hkey]

end CodeWeaving
