import CodeWeaving.Proofs.Depth.Labels
import Mathlib.Order.Bounds.Basic

/-! Paths through a method body, and what a walk over the body finds out about all of them. -/
namespace CodeWeaving

namespace Instruction

/-- What an instruction adds to the depth. -/
def change (i : Instruction) : Int := i.effect.pushes - i.effect.pops

/-- Depth after an instruction that finds its operands. -/
def after (i : Instruction) (d : Nat) : Nat := d - i.effect.pops + i.effect.pushes

theorem cast_after {i : Instruction} {d : Nat} (h : i.effect.pops ≤ d) :
    (i.after d : Int) = d + i.change := by
  simp only [after, change]
  omega

end Instruction

namespace Code

/-- A path leads from the first instruction, entered with an empty stack, to an index. The depth is
what its instructions have pushed less what they have popped. -/
inductive Path (code : Code) : Nat → Int → Prop where
  | start : Path code 0 0
  | next {p : Nat} {d : Int} {i : Instruction} (h : Path code p d) (hi : code[p]? = some i)
      (ht : i.isTerminal = false) : Path code (p + 1) (d + i.change)
  | jump {p q : Nat} {d : Int} {i : Instruction} {l : Label} (h : Path code p d)
      (hi : code[p]? = some i) (hl : i.target? = some l) (hq : code[q]? = some (.label l)) :
      Path code q (d + i.change)

/-- Labels and depths fit together on every path. -/
structure Consistent (code : Code) : Prop where
  placedOnce : code.placed.Nodup
  targetsPlaced : ∀ l ∈ code.targets, l ∈ code.placed
  noUnderflow : ∀ p d i, code.Path p d → code[p]? = some i → i.effect.pops ≤ d
  noFallOff : ∀ p d i, code.Path p d → code[p]? = some i → i.isTerminal = false →
    p + 1 ≠ code.length
  depthsAgree : ∀ p d e, code.Path p d → code.Path p e → d = e

/-- Depths before and after the instructions that paths reach. -/
def depthsMet (code : Code) : Set Int :=
  {n | ∃ p d i, code.Path p d ∧ code[p]? = some i ∧ (n = d ∨ n = d + i.change)}

/-- A path, or a pair of paths, that bears out an error; no path bears out one of labels. -/
def Shows (code : Code) : AnalysisError → Prop
  | .undefinedLabel _ | .duplicateLabel _ => False
  | .stackUnderflow p i => ∃ d : Nat, code.Path p d ∧ code[p]? = some i ∧ d < i.effect.pops
  | .inconsistentDepth p d e => code.Path p d ∧ code.Path p e ∧ d ≠ e
  | .fallsOffEnd => ∃ (d : Nat) (i : Instruction), code.Path (code.length - 1) d ∧
      code[code.length - 1]? = some i ∧ i.isTerminal = false

theorem Consistent.not_shows {code : Code} (h : code.Consistent) {err : AnalysisError} :
    ¬ code.Shows err := by
  intro hs
  cases err with
  | undefinedLabel | duplicateLabel => exact hs
  | stackUnderflow p i =>
    obtain ⟨d, hp, hi, hd⟩ := hs
    have := h.noUnderflow p d i hp hi
    omega
  | inconsistentDepth p d e =>
    obtain ⟨hd, he, hne⟩ := hs
    have := h.depthsAgree p d e hd he
    omega
  | fallsOffEnd =>
    obtain ⟨d, i, hp, hi, ht⟩ := hs
    have hlt := (List.getElem?_eq_some_iff.1 hi).1
    have := h.noFallOff _ d i hp hi ht
    omega

end Code

end CodeWeaving
