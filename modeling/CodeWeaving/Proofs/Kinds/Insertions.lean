import CodeWeaving.Proofs.Kinds.WovenCode
import CodeWeaving.Proofs.Machine.InjectedCalls
import CodeWeaving.Proofs.Weaving.MethodWise

/-! Insertions into a method whose kinds are in order: code that kinds flow through may be put in
anywhere. -/
namespace CodeWeaving

open Code

namespace Method

/-- Nothing is on the stack on entry, and the parameters are in their slots. -/
def entryFrame (m : Method) : KindFrame := ⟨[], SlotKinds.ofLayout m.parameterLayout⟩

/-- Every instruction that may be reached finds operands and locals of the kinds it names. -/
def KindCorrect (m : Method) : Prop := ∃ T, m.code.Kinded m.entryFrame T

variable {m k : Method} {n : Nat}

theorem totalWidth_parameterKinds :
    ValueKind.totalWidth m.parameterKinds = m.parameterLength := by
  rw [parameterLength_eq, parameterKinds, firstArgument]
  cases m.isStatic
  · rfl
  · exact (Nat.zero_add _).symm

/-- Nothing is known of other slots than those of the parameters. -/
theorem cut_entryFrame (hn : m.parameterLength ≤ n) : m.entryFrame.cut n = m.entryFrame := by
  have hlocals : (SlotKinds.ofLayout m.parameterLayout).cut n =
      SlotKinds.ofLayout m.parameterLayout := by
    funext slot
    unfold SlotKinds.cut
    split
    · rfl
    · rename_i hslot
      have hle : 0 + ValueKind.totalWidth m.parameterKinds ≤ slot := by
        rw [totalWidth_parameterKinds]
        omega
      rw [SlotKinds.ofLayout, parameterLayout, SlotKinds.foldl_store_of_le hle]
  rw [KindFrame.cut, entryFrame, hlocals]

theorem SameHeader.entryFrame_eq (h : m.SameHeader k) : k.entryFrame = m.entryFrame := by
  have hstatic : k.isStatic = m.isStatic := by rw [isStatic, isStatic, h.flags]
  rw [entryFrame, parameterLayout, parameterKinds, hstatic, h.signature]
  rfl

end Method

/-- The place between instructions on a side of one. -/
def Placement.gap : Placement → Nat → Nat
  | .before, index => index
  | .after, index => index + 1

theorem Edit.gap_insert (placement : Placement) (a : Anchor) (code : Code) :
    (Edit.insert placement a code).gap = placement.gap a.index := by
  cases placement <;> rfl

theorem Edit.code_insert (placement : Placement) (a : Anchor) (code : Code) :
    (Edit.insert placement a code).code = code := by
  cases placement <;> rfl

/-- Inserted code through which the kinds of any frame that comes to it flow. -/
theorem Edit.fitsKinds_insert {placement : Placement} {a : Anchor} {code : Code}
    {x : Option KindFrame}
    (h : ∀ g, x = some g → ∀ L : Label → Option KindFrame, (∀ l ∈ code.placed, L l = some g) →
      KindFlows L (some g) code (some g)) : (Edit.insert placement a code).FitsKinds x where
  inserts other hother := by cases placement <;> cases hother
  flows L hL := by
    rw [Edit.code_insert] at hL ⊢
    cases x with
    | none => exact kindFlows_of_unreached hL
    | some g => exact h g rfl L hL

/-- Labels of the method have the frames of their places, new ones those of the edits' places. -/
theorem exists_labelKinds {code : Code} {es : List Edit} (T X : Nat → Option KindFrame)
    (h : (code.placed ++ es.flatMap fun e => e.code.placed).Nodup) :
    ∃ L : Label → Option KindFrame, (∀ q l, code[q]? = some (.label l) → L l = T q) ∧
      ∀ e ∈ es, ∀ l ∈ e.code.placed, L l = X e.gap := by
  have hkeys : (((code.placements 0).map (Prod.map id T) ++
      es.flatMap fun e => e.code.placed.map fun l => (l, X e.gap)).map Prod.fst) =
      code.placed ++ es.flatMap fun e => e.code.placed := by
    rw [List.map_append, List.map_map, List.map_flatMap]
    congr 1
    · exact map_fst_placements
    · simp [Function.comp_def]
  obtain ⟨L, hL⟩ := exists_lookup (hkeys ▸ h)
  refine ⟨L, ?_, ?_⟩
  · intro q l hq
    have hplaced : (l, q) ∈ code.placements 0 := mem_placements.2 ⟨Nat.zero_le q, hq⟩
    exact hL (l, T q) (List.mem_append_left _ (List.mem_map_of_mem hplaced))
  · intro e he l hl
    refine hL (l, X e.gap) (List.mem_append_right _ (List.mem_flatMap.2 ⟨e, he, ?_⟩))
    exact List.mem_map_of_mem hl

namespace Weaver

variable {cx : Context} {m : Method} {es : List Edit} {u : Draft} {T : Nat → Option KindFrame}
  {n : Nat}

/-- Code that kinds flow through may be put in anywhere. -/
theorem Edited.kindCorrect (h : Edited m es u) (hheader : m.SameHeader u.method)
    (hkinds : m.code.Kinded m.entryFrame T)
    (hes : ∀ e ∈ es, e.FitsKinds (m.code.handed m.entryFrame T e.gap)) : u.method.KindCorrect := by
  obtain ⟨first, hlaid⟩ := h.exists_laid
  have hnodup : (m.code.placed ++ es.flatMap fun e => e.code.placed).Nodup := by
    have hplaced := h.run.placed_perm
    rw [u.agrees, (Draft.ofMethod m).agrees] at hplaced
    exact hplaced.nodup_iff.1 h.labels
  obtain ⟨L, hlabels, hnew⟩ := exists_labelKinds T (m.code.handed m.entryFrame T) hnodup
  obtain ⟨y, hflows⟩ := hkinds.kindFlows_layout hlabels
    (fun e he => ⟨hes e he, hnew e he⟩) first 0
  have hcode : u.method.code = (Plan.layout es first 0 m.code).map Prod.snd := by
    rw [← u.agrees, CodeStream.instructions, hlaid.entries]
  rw [Method.KindCorrect, hheader.entryFrame_eq]
  rw [List.drop_zero, ← hcode] at hflows
  exact hflows.exists_kinded h.targets

end Weaver

/-- Straight code that leaves what it finds on the stack as it was may be put in. -/
theorem Edit.fitsKinds_of_retypes (placement : Placement) {a : Anchor} {code : Code}
    {x : Option KindFrame} (hplain : ∀ i ∈ code, i.isPlain = true)
    (h : ∀ g, x = some g → ∃ top below, g.stack = top ++ below ∧ Retypes g.locals code top top) :
    (Edit.insert placement a code).FitsKinds x := by
  apply Edit.fitsKinds_insert
  intro g hg L _
  obtain ⟨top, below, hstack, hcode⟩ := h g hg
  have hafter : code.kindsAfter? g = some g := by
    have hflat := hcode below
    rwa [← hstack] at hflat
  exact kindFlows_of_straight hplain hafter

end CodeWeaving
