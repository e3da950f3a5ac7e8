import CodeWeaving.Weaving.Plan

/-! Finding the instructions that selectors and literals stand for. -/
namespace CodeWeaving

/-- Positions of the instructions that pass a test, in program order. -/
def Code.positions (code : Code) (test : Instruction → Bool) : List Nat :=
  (code.zipIdx.filter fun (i, _) => test i).map Prod.snd

/-- One of the matches by its ordinal, or all of them for -1. -/
def chooseOrdinal {α : Type} (found : List α) (ordinal : Int32) : Except WeaveError (List α) :=
  if ordinal = -1 then .ok found
  else if ordinal < 0 then .error (.unsupportedSelector (.ordinal ordinal))
  else .ok found[ordinal.toInt.toNat]?.toList

namespace Selector

/-- Whether an instruction is of the selected sort, wherever it stands. -/
def accepts : Selector → Instruction → Bool
  | .returns, i => i.isReturn
  | .calls target _, .invoke _ m => target.accepts m.identity
  | .fieldAccesses target _, .field _ f => target.accepts f.identity
  | .allocations target _, .new c => target.accepts c.text
  | .locals .store slot kind _, .storeLocal s k => slot.all (· = s) && kind.all (· = k)
  | .locals .load slot kind _, .loadLocal s k => slot.all (· = s) && kind.all (· = k)
  | _, _ => false

def matches? (s : Selector) (code : Code) : Except WeaveError (List Nat) :=
  match s with
  | .head => .ok (if code.isEmpty then [] else [0])
  | .returns => .ok (code.positions s.accepts)
  | .calls _ ordinal | .fieldAccesses _ ordinal | .allocations _ ordinal | .locals _ _ _ ordinal =>
    chooseOrdinal (code.positions s.accepts) ordinal

end Selector

namespace CodeStream

/-- The instructions at some positions, with their anchors. -/
def sites (s : CodeStream) (positions : List Nat) : List Site :=
  positions.filterMap fun p => s.entries[p]?.map fun e => ⟨s.anchor e.1, e.2⟩

def site (s : CodeStream) (a : Anchor) : Except AnchorError Site := (s.get a).map fun i => ⟨a, i⟩

/-- Goes from anchor to anchor, a number of times or until there is no further one. -/
def walk (step : Anchor → Except AnchorError (Option Anchor)) :
    Nat → Anchor → Except AnchorError Anchor
  | 0, a => .ok a
  | n + 1, a => do
    match ← step a with
    | some b => walk step n b
    | none => pure a

/-- The anchor that a shift leads to, forwards or, below zero, backwards. -/
def shift (s : CodeStream) (a : Anchor) (distance : Int32) : Except AnchorError Anchor :=
  walk (if 0 < distance then s.next? else s.prev?) distance.toInt.natAbs a

/-- The instructions an injection point stands for, in program order. Matches that are shifted to
one place count once. -/
def locate (s : CodeStream) (p : InjectionPoint) : Except WeaveError (List Site) := do
  let found ← p.selector.matches? s.instructions
  let shifted ← ((s.sites found).mapM fun site => s.shift site.anchor p.shift).mapError
    Plan.anchorFault
  (shifted.eraseDups.mapM s.site).mapError Plan.anchorFault

/-- Whether two literals count as one: floats may differ by `epsilon`. -/
def literalsMatch (epsilon : Float) : Constant → Constant → Bool
  | .null, .null => true
  | .int a, .int b => a = b
  | .long a, .long b => a = b
  | .float a, .float b => a == b || (a.toFloat - b.toFloat).abs ≤ epsilon
  | .double a, .double b => a == b || (a - b).abs ≤ epsilon
  | .string a, .string b => a = b
  | _, _ => false

/-- The pushes of a literal, in program order. -/
def locateConstant (s : CodeStream) (c : ConstantMatch) (epsilon : Float) :
    Except WeaveError (List Site) :=
  let found := s.instructions.positions fun i =>
    i.literal?.any fun pushed => literalsMatch epsilon pushed c.value
  (chooseOrdinal found c.ordinal).map s.sites

end CodeStream

end CodeWeaving
