import CodeWeaving.Code.Arena

/-! Code under edit. Every instruction has an anchor that keeps naming it whatever happens around
it, and that is known for stale once the instruction is gone. -/
namespace CodeWeaving

/-- Handle on one instruction of one stream. -/
structure Anchor where
  stream : Nat
  index : Nat
  deriving DecidableEq

inductive AnchorError where
  /-- The anchor was handed out by some other stream. -/
  | foreign (anchor : Anchor)
  /-- The instruction has been removed. -/
  | removed (anchor : Anchor)
  deriving DecidableEq

/-- Instructions in an arena, under a number that tells this stream from others. -/
structure CodeStream where
  id : Nat
  arena : Arena
  linked : arena.Linked

namespace CodeStream

def empty (id : Nat) : CodeStream := ⟨id, .empty, Arena.Lists.empty⟩

/-- Instructions in program order, each with its number. -/
def entries (s : CodeStream) : List (Nat × Instruction) := s.arena.entries

/-- Numbers below this one are used up. -/
def fresh (s : CodeStream) : Nat := s.arena.cells.size

theorem nodup (s : CodeStream) : (s.entries.map Prod.fst).Nodup := s.linked.nodup

theorem below (s : CodeStream) : ∀ e ∈ s.entries, e.1 < s.fresh := fun _ he => s.linked.lt_size he

def instructions (s : CodeStream) : Code := s.entries.map Prod.snd

def size (s : CodeStream) : Nat := s.arena.size

def isEmpty (s : CodeStream) : Bool := s.size == 0

def anchor (s : CodeStream) (index : Nat) : Anchor := ⟨s.id, index⟩

/-- The instructions with their anchors, in program order. -/
def anchored (s : CodeStream) : List (Anchor × Instruction) :=
  s.entries.map fun (index, i) => (s.anchor index, i)

def anchors (s : CodeStream) : List Anchor := s.entries.map fun (index, _) => s.anchor index

/-- Anchors of the code that the next edit brings in. -/
def newAnchors (s : CodeStream) (code : Code) : List Anchor :=
  (List.range' s.fresh code.length).map s.anchor

/-- The cells of the instructions that are there. -/
abbrev Live (s : CodeStream) : Type := { k : Nat // (s.arena.live? k).isSome }

def check (s : CodeStream) (a : Anchor) : Except AnchorError s.Live :=
  if a.stream = s.id then
    if h : (s.arena.live? a.index).isSome then .ok ⟨a.index, h⟩
    else if a.index < s.fresh then .error (.removed a)
    else .error (.foreign a)
  else .error (.foreign a)

def contains (s : CodeStream) (a : Anchor) : Bool := (s.check a).isOk

/-- Where an anchor's instruction stands. -/
def position (s : CodeStream) (a : Anchor) : Except AnchorError Nat :=
  (s.check a).map fun k : s.Live => s.entries.findIdx (·.1 == k.1)

def first? (s : CodeStream) : Option Anchor := s.arena.head.map s.anchor

def last? (s : CodeStream) : Option Anchor := s.arena.tail.map s.anchor

def next? (s : CodeStream) (a : Anchor) : Except AnchorError (Option Anchor) :=
  (s.check a).map fun k : s.Live => (s.arena.next (some k)).map s.anchor

def prev? (s : CodeStream) (a : Anchor) : Except AnchorError (Option Anchor) :=
  (s.check a).map fun k : s.Live => (s.arena.prev (some k)).map s.anchor

def get (s : CodeStream) (a : Anchor) : Except AnchorError Instruction :=
  (s.check a).map fun k : s.Live => (s.arena.live? k).get k.2

def pushBack (s : CodeStream) (i : Instruction) : CodeStream :=
  ⟨s.id, s.arena.pushBack i, s.linked.pushBack⟩

def pushFront (s : CodeStream) (i : Instruction) : CodeStream :=
  ⟨s.id, s.arena.pushFront i, s.linked.pushFront⟩

def insertBefore (s : CodeStream) (a : Anchor) (code : Code) : Except AnchorError CodeStream :=
  (s.check a).map fun k : s.Live => ⟨s.id, s.arena.insertBefore k code, s.linked.insertBefore k.2⟩

def insertAfter (s : CodeStream) (a : Anchor) (code : Code) : Except AnchorError CodeStream :=
  (s.check a).map fun k : s.Live => ⟨s.id, s.arena.insertAfter k code, s.linked.insertAfter k.2⟩

def remove (s : CodeStream) (a : Anchor) : Except AnchorError CodeStream :=
  (s.check a).map fun k : s.Live => ⟨s.id, s.arena.remove k, s.linked.remove k.2⟩

def replace (s : CodeStream) (a : Anchor) (code : Code) : Except AnchorError CodeStream := do
  let t ← s.insertBefore a code
  t.remove a

def clear (s : CodeStream) : CodeStream := ⟨s.id, s.arena.clear, Arena.Lists.clear.linked⟩

theorem entries_pushBack (s : CodeStream) (i : Instruction) :
    (s.pushBack i).entries = s.entries ++ [(s.fresh, i)] :=
  (Arena.Lists.pushBack s.linked).entries_eq

theorem fresh_pushBack (s : CodeStream) (i : Instruction) :
    (s.pushBack i).fresh = s.fresh + 1 := by
  simp [fresh, pushBack, Arena.pushBack]

def ofList (id : Nat) (code : Code) : CodeStream := code.foldl pushBack (empty id)

theorem entries_foldl_pushBack (s : CodeStream) (code : Code) :
    (code.foldl pushBack s).entries = s.entries ++ code.numbered s.fresh := by
  induction code generalizing s with
  | nil => simp [Code.numbered]
  | cons i code ih => simp [ih, entries_pushBack, fresh_pushBack, Code.numbered]

theorem instructions_ofList (id : Nat) (code : Code) : (ofList id code).instructions = code := by
  rw [instructions, ofList, entries_foldl_pushBack, List.map_append, Code.map_snd_numbered]
  rfl

/-- A copy with anchors of its own. -/
def copy (s : CodeStream) (id : Nat) : CodeStream := ofList id s.instructions

end CodeStream

end CodeWeaving
