import CodeWeaving.Instruction.Listing

/-! Stack depths of a method body along all its paths. -/
namespace CodeWeaving

/-- Why a body's labels or stack depths do not fit together. -/
inductive AnalysisError where
  | undefinedLabel (label : Label)
  | duplicateLabel (label : Label)
  | stackUnderflow (index : Nat) (instruction : Instruction)
  /-- Two paths meet with different depths. -/
  | inconsistentDepth (index expected found : Nat)
  | fallsOffEnd
  deriving DecidableEq

def AnalysisError.message : AnalysisError → String
  | .undefinedLabel l => "branch to undefined label " ++ l.text
  | .duplicateLabel l => "label " ++ l.text ++ " placed twice"
  | .stackUnderflow index i => s!"stack underflow at #{index} (" ++ i.text ++ ")"
  | .inconsistentDepth index expected found =>
    s!"inconsistent stack depth at #{index}: {expected} vs {found}"
  | .fallsOffEnd => "control falls off the end of the method"

/-- Where each label is placed. -/
abbrev LabelMap := List (Label × Nat)

namespace LabelMap

def find? (m : LabelMap) (l : Label) : Option Nat := m.lookup l

end LabelMap

namespace Code

/-- The labels placed from some index on; the first one already placed is an error. -/
def placeLabels (placed : LabelMap) (index : Nat) : Code → Except AnalysisError LabelMap
  | [] => .ok placed
  | .label l :: code =>
    match placed.find? l with
    | some _ => .error (.duplicateLabel l)
    | none => placeLabels (placed ++ [(l, index)]) (index + 1) code
  | _ :: code => placeLabels placed (index + 1) code

/-- The first branch target that is not placed. -/
def undefinedTarget? (code : Code) (placed : LabelMap) : Option Label :=
  (code.filterMap Instruction.target?).find? fun l => (placed.find? l).isNone

/-- Where the labels are, if each is placed once and no branch misses. -/
def checkLabels (code : Code) : Except AnalysisError LabelMap := do
  let placed ← placeLabels [] 0 code
  match code.undefinedTarget? placed with
  | some l => .error (.undefinedLabel l)
  | none => .ok placed

/-- Where control may go from an instruction: on to the next, then to the branch target. -/
def successors (code : Code) (labels : LabelMap) (index : Nat) (i : Instruction) :
    Except AnalysisError (List Nat) :=
  let jump := (i.target?.bind labels.find?).toList
  if i.isTerminal then .ok jump
  else if index + 1 = code.length then .error .fallsOffEnd
  else .ok ((index + 1) :: jump)

end Code

/-- How far a walk over the paths has come: the depth at which each index was first reached, the
indices still to be visited, latest first, and the greatest depth met. -/
structure Exploration where
  depths : List (Option Nat)
  pending : List Nat
  peak : Nat

namespace Exploration

def unreached (e : Exploration) : Nat := e.depths.countP Option.isNone

/-- Falls with every visit, whatever the visit finds. -/
def remaining (e : Exploration) : Nat := 2 * e.unreached + e.pending.length

def depth (e : Exploration) (index : Nat) : Nat := (e.depths[index]?.join).getD 0

/-- A path arrives at an index. -/
def reach (depth : Nat) (e : Exploration) (index : Nat) : Except AnalysisError Exploration :=
  match e.depths[index]? with
  | some none =>
    .ok { e with depths := e.depths.set index (some depth), pending := index :: e.pending }
  | some (some expected) =>
    if expected = depth then .ok e else .error (.inconsistentDepth index expected depth)
  | none => .ok e

def visit (code : Code) (labels : LabelMap) (e : Exploration) (index : Nat) :
    Except AnalysisError Exploration :=
  match code[index]? with
  | none => .ok e
  | some i =>
    if e.depth index < i.effect.pops then .error (.stackUnderflow index i)
    else do
      let after := e.depth index - i.effect.pops + i.effect.pushes
      let next ← code.successors labels index i
      next.foldlM (reach after) { e with peak := max (max e.peak after) (e.depth index) }

theorem reach_remaining {d index : Nat} {e f : Exploration} (h : reach d e index = .ok f) :
    f.remaining ≤ e.remaining := by
  unfold reach at h
  split at h
  · rename_i hn
    cases h
    obtain ⟨hlt, hget⟩ := List.getElem?_eq_some_iff.1 hn
    have hpos : 0 < e.depths.countP Option.isNone :=
      List.countP_pos_iff.2 ⟨_, List.getElem_mem hlt, by rw [hget]; rfl⟩
    simp only [remaining, unreached, List.countP_set hlt, hget, Option.isNone_none, ↓reduceIte,
      Option.isNone_some, Bool.false_eq_true, Nat.add_zero, List.length_cons]
    omega
  · split at h <;> cases h
    exact Nat.le_refl _
  · cases h
    exact Nat.le_refl _

theorem foldlM_reach_remaining {d : Nat} {next : List Nat} {e f : Exploration}
    (h : next.foldlM (reach d) e = .ok f) : f.remaining ≤ e.remaining := by
  induction next generalizing e with
  | nil => cases h; exact Nat.le_refl _
  | cons index next ih =>
    rw [List.foldlM_cons] at h
    cases hr : reach d e index with
    | error err => rw [hr] at h; cases h
    | ok g =>
      rw [hr] at h
      exact Nat.le_trans (ih h) (reach_remaining hr)

theorem visit_remaining {code : Code} {labels : LabelMap} {index : Nat} {e f : Exploration}
    (h : visit code labels e index = .ok f) : f.remaining ≤ e.remaining := by
  unfold visit at h
  split at h
  · cases h; exact Nat.le_refl _
  · rename_i i _
    split at h
    · cases h
    · cases hs : code.successors labels index i with
      | error err => rw [hs] at h; cases h
      | ok next =>
        rw [hs] at h
        have h' : next.foldlM (reach _) { e with peak := _ } = .ok f := h
        exact Nat.le_trans (foldlM_reach_remaining h') (Nat.le_refl _)

/-- Visits whatever is pending, the index reached last first, until nothing is. -/
def run (code : Code) (labels : LabelMap) (e : Exploration) : Except AnalysisError Exploration :=
  match _h : e.pending with
  | [] => .ok e
  | index :: rest =>
    match _hv : visit code labels { e with pending := rest } index with
    | .error err => .error err
    | .ok f => run code labels f
termination_by e.remaining
decreasing_by
  have := visit_remaining _hv
  simp only [remaining, unreached, _h, List.length_cons] at this ⊢
  omega

/-- The start: the first instruction is reached with an empty stack. -/
def start (code : Code) : Exploration :=
  ⟨(List.replicate code.length none).set 0 (some 0), if code.isEmpty then [] else [0], 0⟩

end Exploration

/-- Depths on entry to each instruction, `none` where no path leads, and the greatest depth. -/
structure StackSummary where
  maxStack : Nat
  entryDepths : List (Option Nat)
  deriving DecidableEq

namespace Code

def simulate (code : Code) : Except AnalysisError StackSummary := do
  let labels ← code.checkLabels
  let e ← (Exploration.start code).run code labels
  pure ⟨e.peak, e.depths⟩

def maxStack (code : Code) : Except AnalysisError Nat := code.simulate.map StackSummary.maxStack

/-- Local slots that the parameters and the code need. -/
def localsNeeded (code : Code) (parameterLength : Nat) : Nat :=
  code.foldl (fun n i => max n i.localsNeeded) parameterLength

/-- How far straight-line code raises the stack, starting a number of slots above its entry; what
it takes from below its entry counts for nothing. -/
def peakFrom (depth : Nat) : Code → Nat
  | [] => 0
  | i :: code =>
    let after := depth - i.effect.pops + i.effect.pushes
    max after (peakFrom after code)

def peak (code : Code) : Nat := code.peakFrom 0

/-- The greatest label that the code places or branches to. -/
def greatestLabel? (code : Code) : Option Label :=
  ((code.filterMap Instruction.label?).map Label.id).max?.map Label.mk

/-- A label above all that the code places or branches to, unless it wraps around. -/
def freeLabel (code : Code) : Label :=
  match code.greatestLabel? with
  | some l => l.next
  | none => ⟨0⟩

/-- A label above all that the code places or branches to; none where finding it overflows. -/
def freeLabel? (code : Code) : Option Label :=
  match code.greatestLabel? with
  | some l => l.next?
  | none => some ⟨0⟩

end Code

end CodeWeaving
