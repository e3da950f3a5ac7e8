import CodeWeaving.Proofs.Depth.Flow

/-! Straight code, and code that leaves the stack as it was unless it returns: the two shapes in
which code is woven in. -/
namespace CodeWeaving

namespace Instruction

/-- Whether an instruction with the opcode of a short literal declares itself as the push of one
slot. -/
def declaresLiteral : Instruction → Bool
  | .raw r => !(r.opcode == Opcode.bipush || r.opcode == Opcode.sipush) ||
      (r.pops == 0 && r.pushes == 1)
  | _ => true

/-- Control goes on to the next instruction and nowhere else, and comes from nowhere else. -/
def isPlain (i : Instruction) : Bool :=
  !i.isTerminal && i.label?.isNone && i.declaresLiteral

variable {i : Instruction} {l : Label} {L : Label → Option Nat} {B d : Nat}

theorem isPlain_iff : i.isPlain = true ↔
    i.isTerminal = false ∧ i.label? = none ∧ i.declaresLiteral = true := by
  simp [isPlain, and_assoc]

theorem placed?_of_isPlain (h : i.isPlain = true) : i.placed? = none := by
  have := (isPlain_iff.1 h).2.1
  cases i <;> simp_all [label?, placed?]

theorem target?_of_isPlain (h : i.isPlain = true) : i.target? = none := by
  have := (isPlain_iff.1 h).2.1
  cases i <;> simp_all [label?, target?]

theorem leaves_of_isPlain (h : i.isPlain = true) : i.leaves (some d) = some (i.after d) := by
  simp [leaves, (isPlain_iff.1 h).1]

theorem fits_of_isPlain (h : i.isPlain = true) (hpops : i.effect.pops ≤ d) (hd : d ≤ B)
    (hafter : i.after d ≤ B) : i.Fits L B (some d) where
  label l hl := by
    subst hl
    cases placed?_of_isPlain h
  pops n hn := by cases hn; exact hpops
  bound n hn := by cases hn; exact ⟨hd, hafter⟩
  jump n l _ hl := by
    rw [target?_of_isPlain h] at hl
    cases hl

end Instruction

namespace Code

variable {L : Label → Option Nat} {B b d e s : Nat} {code code' : Code}
  {es fs : List (Option Nat)} {x y : Option Nat} {i : Instruction}

/-- The depth after straight code; none if the code is not straight or lacks operands. -/
def depthAfter? (d : Nat) : Code → Option Nat
  | [] => some d
  | i :: code => if i.isPlain ∧ i.effect.pops ≤ d then depthAfter? (i.after d) code else none

theorem depthAfter?_append :
    (code ++ code').depthAfter? d = (code.depthAfter? d).bind code'.depthAfter? := by
  induction code generalizing d with
  | nil => rfl
  | cons i code ih =>
    simp only [List.cons_append, depthAfter?]
    split
    · exact ih
    · rfl

theorem depthAfter?_append_eq_some (h : code.depthAfter? d = some e) :
    (code ++ code').depthAfter? d = code'.depthAfter? e := by
  rw [depthAfter?_append, h, Option.bind_some]

theorem depthAfter?_cons_eq_some :
    depthAfter? d (i :: code) = some e ↔
      i.isPlain = true ∧ i.effect.pops ≤ d ∧ code.depthAfter? (i.after d) = some e := by
  simp only [depthAfter?]
  split <;> simp_all

theorem isPlain_of_depthAfter? (h : code.depthAfter? d = some e) :
    ∀ i ∈ code, i.isPlain = true := by
  induction code generalizing d with
  | nil => simp
  | cons i code ih =>
    obtain ⟨hi, -, h⟩ := depthAfter?_cons_eq_some.1 h
    intro j hj
    rcases List.mem_cons.1 hj with rfl | hj
    · exact hi
    · exact ih h j hj

theorem placed_of_depthAfter? (h : code.depthAfter? d = some e) : code.placed = [] :=
  List.filterMap_eq_nil_iff.2 fun i hi =>
    Instruction.placed?_of_isPlain (isPlain_of_depthAfter? h i hi)

theorem targets_of_depthAfter? (h : code.depthAfter? d = some e) : code.targets = [] :=
  List.filterMap_eq_nil_iff.2 fun i hi =>
    Instruction.target?_of_isPlain (isPlain_of_depthAfter? h i hi)

/-- Depth after code, where what it takes from below counts for nothing. -/
def levelFrom (s : Nat) (code : Code) : Nat := code.foldl (fun s i => i.after s) s

theorem peakFrom_append :
    (code ++ code').peakFrom s = max (code.peakFrom s) (code'.peakFrom (code.levelFrom s)) := by
  induction code generalizing s with
  | nil => simp [peakFrom, levelFrom]
  | cons i code ih =>
    have hi := ih (s := i.after s)
    simp only [Instruction.after] at hi
    simp only [List.cons_append, peakFrom, hi, levelFrom, List.foldl_cons, Instruction.after]
    omega

theorem levelFrom_le : code.levelFrom s ≤ max s (code.peakFrom s) := by
  induction code generalizing s with
  | nil => simp [levelFrom]
  | cons i code ih =>
    have hi := ih (s := i.after s)
    simp only [Instruction.after] at hi
    simp only [levelFrom, List.foldl_cons, peakFrom, Instruction.after] at hi ⊢
    omega

theorem after_le_add (hd : d ≤ b + s) (hpops : i.effect.pops ≤ d) :
    i.after d ≤ b + i.after s := by
  simp only [Instruction.after]
  omega

theorem le_levelFrom (h : code.depthAfter? d = some e) (hd : d ≤ b + s) :
    e ≤ b + code.levelFrom s := by
  induction code generalizing d s with
  | nil =>
    cases h
    exact hd
  | cons i code ih =>
    obtain ⟨-, hpops, h⟩ := depthAfter?_cons_eq_some.1 h
    exact ih h (after_le_add hd hpops)

/-- Straight code takes the depths there that its level allows. -/
theorem flows_of_depthAfter? (h : code.depthAfter? d = some e) (hd : d ≤ b + s)
    (hs : b + s ≤ B) (hpeak : b + code.peakFrom s ≤ B) :
    ∃ es, Flows L B (some d) code es (some e) := by
  induction code generalizing d s with
  | nil =>
    cases h
    exact ⟨[], .nil .refl⟩
  | cons i code ih =>
    obtain ⟨hi, hpops, h⟩ := depthAfter?_cons_eq_some.1 h
    have hafter := after_le_add hd hpops
    have hmax : b + i.after s ≤ B ∧ b + peakFrom (i.after s) code ≤ B := by
      simp only [peakFrom, Instruction.after] at hpeak ⊢
      omega
    obtain ⟨es, hes⟩ := ih h hafter hmax.1 hmax.2
    refine ⟨some d :: es, .cons .refl ?_ ?_⟩
    · exact Instruction.fits_of_isPlain hi hpops (by omega) (by omega)
    · rw [Instruction.leaves_of_isPlain hi]
      exact hes

/-- What straight code adds to the depth does not depend on the depth. -/
theorem depthAfter?_change {n z : Nat} (h : code.depthAfter? d = some e)
    (h' : code.depthAfter? n = some z) : z + d = n + e := by
  induction code generalizing d n with
  | nil =>
    cases h
    cases h'
    rfl
  | cons i code ih =>
    obtain ⟨-, hd, h⟩ := depthAfter?_cons_eq_some.1 h
    obtain ⟨-, hn, h'⟩ := depthAfter?_cons_eq_some.1 h'
    have := ih h h'
    simp only [Instruction.after] at this
    omega

/-- Depths flow through straight code only from where it has its operands. -/
theorem Flows.depthAfter? {n : Nat} (hf : Flows L B (some n) code es y)
    (h : ∀ i ∈ code, i.isPlain = true) : ∃ z, code.depthAfter? n = some z ∧ y = some z := by
  induction code generalizing n es with
  | nil =>
    cases hf with
    | nil hx => exact ⟨n, rfl, hx n rfl⟩
  | cons i code ih =>
    have hi := h i List.mem_cons_self
    cases hf with
    | cons hx hfits hf =>
      obtain rfl := hx n rfl
      rw [Instruction.leaves_of_isPlain hi] at hf
      obtain ⟨z, hz, rfl⟩ := ih hf fun j hj => h j (List.mem_cons_of_mem _ hj)
      exact ⟨z, depthAfter?_cons_eq_some.2 ⟨hi, hfits.pops n rfl, hz⟩, rfl⟩

theorem Flows.exit_of_depthAfter? {n : Nat} (hf : Flows L B (some n) code es y)
    (h : code.depthAfter? d = some e) : ∃ z, y = some z ∧ z + d = n + e := by
  obtain ⟨z, hz, rfl⟩ := hf.depthAfter? (isPlain_of_depthAfter? h)
  exact ⟨z, rfl, depthAfter?_change h hz⟩

/-- Code that leaves the stack as it was: straight code, or a call followed by a test that may lead
to a return. -/
inductive Neutral (d : Nat) : Code → Prop where
  | straight {code : Code} (h : code.depthAfter? d = some d) : Neutral d code
  | guarded {call leave : Code} {skip : Label} {kind : Option ValueKind} {e : Nat}
      (hcall : call.depthAfter? d = some (d + 1)) (hleave : leave.depthAfter? d = some e)
      (hret : (Instruction.ret kind).effect.pops ≤ e) :
      Neutral d (call ++ .branch .ifZero skip :: (leave ++ [.ret kind, .label skip]))

namespace Neutral

/-- Depths flow through neutral code if those of the labels placed in it do. -/
theorem flows (h : Neutral d code) (hL : ∀ l ∈ code.placed, L l = some d)
    (hB : d + code.peak ≤ B) : ∃ es, Flows L B (some d) code es (some d) := by
  cases h with
  | straight h => exact flows_of_depthAfter? (b := d) (s := 0) h (Nat.le_refl d) (by omega) hB
  | @guarded call leave skip kind e hcall hleave hret =>
    have hskip : L skip = some d := hL skip (by simp [mem_placed])
    -- levels of the peak's count at the test and at the return
    obtain ⟨s, hs⟩ : ∃ s, s = call.levelFrom 0 := ⟨_, rfl⟩
    have hpeak : d + call.peakFrom 0 ≤ B ∧ d + (s - 1) ≤ B ∧ d + leave.peakFrom (s - 1) ≤ B := by
      simp only [peak, peakFrom_append, peakFrom, Instruction.effect, ← hs, Nat.add_zero] at hB
      omega
    obtain ⟨hcallPeak, hs1, hleavePeak⟩ := hpeak
    have hbranch : d ≤ d + (s - 1) := by omega
    obtain ⟨es, hes⟩ := flows_of_depthAfter? (L := L) (b := d) (s := 0) hcall (Nat.le_refl d)
      (by omega) hcallPeak
    obtain ⟨fs, hfs⟩ := flows_of_depthAfter? (L := L) hleave hbranch hs1 hleavePeak
    have htop : d + 1 ≤ B := by
      have := le_levelFrom (b := d) (s := 0) hcall (Nat.le_refl d)
      have : s ≤ max 0 (call.peakFrom 0) := hs ▸ levelFrom_le
      omega
    have hend : e ≤ B := by
      have := le_levelFrom hleave hbranch
      have : leave.levelFrom (s - 1) ≤ max (s - 1) (leave.peakFrom (s - 1)) := levelFrom_le
      omega
    refine ⟨es ++ some d.succ :: (fs ++ [some e, some d]), hes.append (.cons .refl ?_ ?_)⟩
    · refine ⟨by simp, ?_, ?_, ?_⟩
      · rintro n ⟨⟩
        simp [Instruction.effect]
      · rintro n ⟨⟩
        simp only [Instruction.after, Instruction.effect]
        omega
      · rintro n l ⟨⟩ ⟨⟩
        exact hskip
    · refine hfs.append (.cons .refl ?_ (.cons .none_left ?_ (.nil ?_)))
      · refine ⟨by simp, ?_, ?_, by simp [Instruction.target?]⟩
        · rintro n ⟨⟩
          exact hret
        · rintro n ⟨⟩
          simp only [Instruction.after, Instruction.effect] at hret ⊢
          omega
      · refine ⟨?_, by simp [Instruction.effect], ?_, by simp [Instruction.target?]⟩
        · rintro l ⟨⟩
          exact hskip.symm
        · rintro n ⟨⟩
          simp only [Instruction.after, Instruction.effect]
          omega
      · rintro n hn
        simpa [Instruction.leaves, Instruction.isTerminal, Instruction.after, Instruction.effect]
          using hn

/-- Whatever flows through neutral code, at whatever depth, comes out as it went in. -/
theorem exit {n : Nat} (h : Neutral d code) (hf : Flows L B (some n) code es y) :
    y = some n := by
  cases h with
  | straight h =>
    obtain ⟨z, rfl, hsum⟩ := hf.exit_of_depthAfter? h
    obtain rfl : z = n := by omega
    rfl
  | @guarded call leave skip kind e hcall hleave hret =>
    obtain ⟨es, fs, m, rfl, hf, hbranch⟩ := hf.parts
    obtain ⟨z, rfl, hz⟩ := hf.exit_of_depthAfter? hcall
    obtain rfl : z = n + 1 := by omega
    cases hbranch with
    | cons hx hfits hf =>
      obtain rfl := hx _ rfl
      have hskip : L skip = some n := hfits.jump _ _ rfl rfl
      obtain ⟨es, fs, m, rfl, -, hend⟩ := hf.parts
      cases hend with
      | cons _ _ hend =>
        cases hend with
        | cons _ hlabel hend =>
          obtain rfl := (hlabel.label skip rfl).trans hskip
          cases hend with
          | nil hy => exact hy n rfl

theorem declaresLiteral (h : Neutral d code) : ∀ i ∈ code, i.declaresLiteral = true := by
  have hplain {code : Code} {d e : Nat} (h : code.depthAfter? d = some e) :
      ∀ i ∈ code, i.declaresLiteral = true :=
    fun i hi => (Instruction.isPlain_iff.1 (isPlain_of_depthAfter? h i hi)).2.2
  cases h with
  | straight h => exact hplain h
  | guarded hcall hleave =>
    intro i hi
    simp only [List.mem_append, List.mem_cons, List.not_mem_nil, or_false] at hi
    rcases hi with hi | rfl | hi | rfl | rfl
    · exact hplain hcall i hi
    · rfl
    · exact hplain hleave i hi
    · rfl
    · rfl

/-- Neutral code branches only to labels that it places itself. -/
theorem targets_subset (h : Neutral d code) : ∀ l ∈ code.targets, l ∈ code.placed := by
  cases h with
  | straight h => simp [targets_of_depthAfter? h]
  | guarded hcall hleave =>
    simp only [targets_append, targets_cons, targets_of_depthAfter? hcall,
      targets_of_depthAfter? hleave, placed_append, placed_cons]
    simp [Instruction.target?, Instruction.placed?, targets]

/-- The same where the code may be unreached. -/
theorem flows_of_entry {m : Option Nat} (h : ∀ d, m = some d → Neutral d code)
    (hL : ∀ l ∈ code.placed, L l = m) (hB : ∀ d, m = some d → d + code.peak ≤ B) :
    ∃ es, Flows L B m code es m := by
  cases m with
  | none => exact ⟨_, .of_unreached hL⟩
  | some d => exact (h d rfl).flows hL (hB d rfl)

theorem covers (h : Neutral d code) (hf : Flows L B x code es y) : Covers x y := by
  rintro n rfl
  exact h.exit hf

end Neutral

/-- Straight code that asks for what an instruction asks for and leaves what it leaves. -/
structure StandsFor (code : Code) (i : Instruction) : Prop where
  isPlain : i.isPlain = true
  depthAfter? : ∀ d, code.depthAfter? d = Code.depthAfter? d [i]

namespace StandsFor

variable {m : Option Nat}

theorem depthAfter?_eq_some (h : StandsFor code i) :
    code.depthAfter? d = some e ↔ i.effect.pops ≤ d ∧ i.after d = e := by
  rw [h.depthAfter?, depthAfter?_cons_eq_some]
  simp [h.isPlain, Code.depthAfter?]

theorem straight (h : StandsFor code i) : code.depthAfter? i.effect.pops =
    some (i.after i.effect.pops) :=
  h.depthAfter?_eq_some.2 ⟨Nat.le_refl _, rfl⟩

theorem flows (h : StandsFor code i) (hi : i.Fits L B m)
    (hB : ∀ d, m = some d → d + code.peak ≤ B) : ∃ es, Flows L B m code es (i.leaves m) := by
  cases m with
  | none =>
    rw [Instruction.leaves_none]
    exact ⟨_, .of_unreached (by simp [placed_of_depthAfter? h.straight])⟩
  | some d =>
    rw [Instruction.leaves_of_isPlain h.isPlain]
    exact flows_of_depthAfter? (b := d) (s := 0)
      (h.depthAfter?_eq_some.2 ⟨hi.pops d rfl, rfl⟩) (Nat.le_refl d) (hi.bound d rfl).1 (hB d rfl)

theorem fits (h : StandsFor code i) (hf : Flows L B m code es y) :
    ∃ b, i.Fits L b m ∧ Covers (i.leaves m) y := by
  cases m with
  | none =>
    refine ⟨0, ⟨?_, by simp, by simp, by simp⟩, ?_⟩
    · rintro l rfl
      cases Instruction.placed?_of_isPlain h.isPlain
    · rw [Instruction.leaves_none]
      exact .none_left
  | some n =>
    obtain ⟨z, hz, rfl⟩ := hf.depthAfter? (isPlain_of_depthAfter? h.straight)
    obtain ⟨hpops, rfl⟩ := h.depthAfter?_eq_some.1 hz
    rw [Instruction.leaves_of_isPlain h.isPlain]
    exact ⟨n + i.after n, Instruction.fits_of_isPlain h.isPlain hpops (by omega) (by omega), .refl⟩

end StandsFor

end Code

end CodeWeaving
