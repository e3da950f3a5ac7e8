import CodeWeaving.Proofs.Stream.Listing

/-! Sessions: edits of any number of streams and of copies made on the way. The same session can be
held with plain lists of anchored instructions, which say what it should do. -/
namespace CodeWeaving

/-- One edit of a stream. -/
inductive StreamEdit where
  | pushBack (i : Instruction)
  | pushFront (i : Instruction)
  | insertBefore (a : Anchor) (code : Code)
  | insertAfter (a : Anchor) (code : Code)
  | replace (a : Anchor) (code : Code)
  | remove (a : Anchor)
  | clear

namespace StreamEdit

/-- Where the edit is to be made, if it is not at an end of the stream. -/
def anchor? : StreamEdit → Option Anchor
  | .insertBefore a _ | .insertAfter a _ | .replace a _ | .remove a => some a
  | .pushBack _ | .pushFront _ | .clear => none

/-- Whether the edit takes the anchor's instruction out. -/
def Drops (a : Anchor) : StreamEdit → Prop
  | .replace b _ | .remove b => b = a
  | .clear => True
  | .pushBack _ | .pushFront _ | .insertBefore _ _ | .insertAfter _ _ => False

end StreamEdit

/-- What an edit gives back: the instruction it takes out and the anchors of those it brings in. -/
structure Edited where
  removed : Option Instruction
  inserted : List Anchor

abbrev EditOutcome := Except AnchorError Edited

namespace CodeStream

/-- The stream after an edit, also after one that fails, and the outcome. -/
def perform (s : CodeStream) : StreamEdit → CodeStream × EditOutcome
  | .pushBack i => (s.pushBack i, .ok ⟨none, s.newAnchors [i]⟩)
  | .pushFront i => (s.pushFront i, .ok ⟨none, s.newAnchors [i]⟩)
  | .insertBefore a code =>
    match s.insertBefore a code with
    | .ok t => (t, .ok ⟨none, s.newAnchors code⟩)
    | .error e => (s, .error e)
  | .insertAfter a code =>
    match s.insertAfter a code with
    | .ok t => (t, .ok ⟨none, s.newAnchors code⟩)
    | .error e => (s, .error e)
  | .replace a code =>
    match s.insertBefore a code with
    | .ok t =>
      match t.get a, t.remove a with
      | .ok i, .ok u => (u, .ok ⟨some i, s.newAnchors code⟩)
      | .error e, _ | _, .error e => (t, .error e)
    | .error e => (s, .error e)
  | .remove a =>
    match s.get a, s.remove a with
    | .ok i, .ok t => (t, .ok ⟨some i, []⟩)
    | .error e, _ | _, .error e => (s, .error e)
  | .clear => (s.clear, .ok ⟨none, []⟩)

/-- Two streams are equal if they hold the same instructions, whatever their anchors. -/
instance instBEqCodeStream : BEq CodeStream where
  beq s t := s.size == t.size && s.instructions == t.instructions

/-- Every use of the anchor fails with the error, and edits there change nothing. -/
structure Refuses (s : CodeStream) (a : Anchor) (e : AnchorError) : Prop where
  get : s.get a = .error e
  next : s.next? a = .error e
  prev : s.prev? a = .error e
  contains : s.contains a = false
  edit : ∀ d : StreamEdit, d.anchor? = some a → s.perform d = (s, .error e)

end CodeStream

/-- A list of anchored instructions. So many anchors have been handed out, the first ones by
number; those that are not in the list are gone from it. -/
structure AnchoredList where
  id : Nat
  used : Nat
  live : List (Anchor × Instruction)

namespace AnchoredList

def empty (id : Nat) : AnchoredList := ⟨id, 0, []⟩

/-- New code with the anchors that come next. -/
def name (l : AnchoredList) (code : Code) : List (Anchor × Instruction) :=
  (code.numbered l.used).map fun (n, i) => (⟨l.id, n⟩, i)

/-- The list with other entries, of which `code` is new. -/
def withLive (l : AnchoredList) (code : Code) (live : List (Anchor × Instruction)) :
    AnchoredList :=
  ⟨l.id, l.used + code.length, live⟩

def ofList (id : Nat) (code : Code) : AnchoredList :=
  (empty id).withLive code ((empty id).name code)

def copy (l : AnchoredList) (id : Nat) : AnchoredList := ofList id (l.live.map Prod.snd)

/-- What is wrong with an anchor that is not in the list. -/
def fault (l : AnchoredList) (a : Anchor) : AnchorError :=
  if a.stream = l.id ∧ a.index < l.used then .removed a else .foreign a

def find (l : AnchoredList) (a : Anchor) : Except AnchorError Instruction :=
  match l.live.lookup a with
  | some i => .ok i
  | none => .error (l.fault a)

/-- The entries with that of an anchor made into others. -/
def put (l : AnchoredList) (a : Anchor)
    (f : Anchor × Instruction → List (Anchor × Instruction)) : List (Anchor × Instruction) :=
  l.live.flatMap fun e => if e.1 = a then f e else [e]

/-- The list after an edit at an anchor that brings in code. -/
def editAt (l : AnchoredList) (a : Anchor) (code : Code)
    (f : Anchor × Instruction → List (Anchor × Instruction))
    (removed : Instruction → Option Instruction) : AnchoredList × EditOutcome :=
  match l.find a with
  | .ok i => (l.withLive code (l.put a f), .ok ⟨removed i, (l.name code).map Prod.fst⟩)
  | .error e => (l, .error e)

def perform (l : AnchoredList) : StreamEdit → AnchoredList × EditOutcome
  | .pushBack i =>
    (l.withLive [i] (l.live ++ l.name [i]), .ok ⟨none, (l.name [i]).map Prod.fst⟩)
  | .pushFront i =>
    (l.withLive [i] (l.name [i] ++ l.live), .ok ⟨none, (l.name [i]).map Prod.fst⟩)
  | .insertBefore a code => l.editAt a code (fun e => l.name code ++ [e]) fun _ => none
  | .insertAfter a code => l.editAt a code (fun e => e :: l.name code) fun _ => none
  | .replace a code => l.editAt a code (fun _ => l.name code) some
  | .remove a => l.editAt a [] (fun _ => []) some
  | .clear => (l.withLive [] [], .ok ⟨none, []⟩)

end AnchoredList

/-- One operation of a session. Streams are numbered in the order in which they come up. -/
inductive Operation where
  | create
  | copy (k : Nat)
  | edit (k : Nat) (d : StreamEdit)

/-- Something that streams can be, for a session. -/
structure Editor (τ : Type) where
  empty : Nat → τ
  copy : τ → Nat → τ
  perform : τ → StreamEdit → τ × EditOutcome

namespace Editor

variable {τ : Type}

/-- One operation; on a stream that there is not, it does nothing. -/
def step (E : Editor τ) (ts : List τ) : Operation → List τ × EditOutcome
  | .create => (ts ++ [E.empty ts.length], .ok ⟨none, []⟩)
  | .copy k =>
    match ts[k]? with
    | some t => (ts ++ [E.copy t ts.length], .ok ⟨none, []⟩)
    | none => (ts, .ok ⟨none, []⟩)
  | .edit k d =>
    match ts[k]? with
    | some t => (ts.set k (E.perform t d).1, (E.perform t d).2)
    | none => (ts, .ok ⟨none, []⟩)

/-- A session: the streams it leaves, and the outcome of each operation. -/
def run (E : Editor τ) (ts : List τ) : List Operation → List τ × List EditOutcome
  | [] => (ts, [])
  | op :: ops =>
    let (us, outcome) := E.step ts op
    let (vs, outcomes) := E.run us ops
    (vs, outcome :: outcomes)

def streams : Editor CodeStream := ⟨CodeStream.empty, CodeStream.copy, CodeStream.perform⟩

def lists : Editor AnchoredList :=
  ⟨AnchoredList.empty, AnchoredList.copy, AnchoredList.perform⟩

end Editor

end CodeWeaving
