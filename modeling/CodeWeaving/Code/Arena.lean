import CodeWeaving.Instruction.Basic

/-! A doubly linked list of instructions in an arena. Cells are never moved, and the cell of a
removed instruction stays behind, dead. -/
namespace CodeWeaving

/-- Instructions with ascending numbers. -/
def Code.numbered (first : Nat) : Code → List (Nat × Instruction)
  | [] => []
  | i :: code => (first, i) :: numbered (first + 1) code

theorem Code.map_snd_numbered (first : Nat) (code : Code) :
    (numbered first code).map Prod.snd = code := by
  induction code generalizing first with
  | nil => rfl
  | cons i code ih => simp [numbered, ih]

theorem Code.map_fst_numbered (first : Nat) (code : Code) :
    (numbered first code).map Prod.fst = List.range' first code.length := by
  induction code generalizing first with
  | nil => rfl
  | cons i code ih => simp [numbered, ih, List.range']

structure Cell where
  instruction : Instruction
  prev : Option Nat
  next : Option Nat
  live : Bool

structure Arena where
  cells : Array Cell
  head : Option Nat
  tail : Option Nat
  size : Nat

namespace Arena

def empty : Arena := ⟨#[], none, none, 0⟩

/-- The cell after a cell, or the first one; `none` stands for both ends of the list. -/
def next (a : Arena) : Option Nat → Option Nat
  | some k => a.cells[k]?.bind Cell.next
  | none => a.head

def prev (a : Arena) : Option Nat → Option Nat
  | some k => a.cells[k]?.bind Cell.prev
  | none => a.tail

/-- The instruction of a live cell. -/
def live? (a : Arena) (k : Nat) : Option Instruction :=
  match a.cells[k]? with
  | some c => if c.live then some c.instruction else none
  | none => none

def setNext (a : Arena) (x y : Option Nat) : Arena :=
  match x with
  | some k => { a with cells := a.cells.modify k fun c => { c with next := y } }
  | none => { a with head := y }

def setPrev (a : Arena) (x y : Option Nat) : Arena :=
  match x with
  | some k => { a with cells := a.cells.modify k fun c => { c with prev := y } }
  | none => { a with tail := y }

/-- Room for one more instruction, not linked to any other yet. -/
def allocate (a : Arena) (i : Instruction) : Arena :=
  { a with cells := a.cells.push ⟨i, none, none, true⟩, size := a.size + 1 }

/-- The cell between two neighbours. -/
def link (a : Arena) (k : Nat) (x y : Option Nat) : Arena :=
  (((a.setPrev (some k) x).setNext (some k) y).setNext x (some k)).setPrev y (some k)

/-- A new instruction between two neighbours. -/
def insert (a : Arena) (x y : Option Nat) (i : Instruction) : Arena :=
  (a.allocate i).link a.cells.size x y

def pushBack (a : Arena) (i : Instruction) : Arena := a.insert a.tail none i

def pushFront (a : Arena) (i : Instruction) : Arena := a.insert none a.head i

def insertBefore (a : Arena) (k : Nat) : Code → Arena
  | [] => a
  | i :: code => (a.insert (a.prev (some k)) (some k) i).insertBefore k code

def insertAfter (a : Arena) (k : Nat) : Code → Arena
  | [] => a
  | i :: code => (a.insert (some k) (a.next (some k)) i).insertAfter a.cells.size code

/-- The cell is dead from now on, and its instruction no longer kept. -/
def bury (a : Arena) (k : Nat) : Arena :=
  { a with
    cells := a.cells.modify k fun _ => ⟨.dup, none, none, false⟩
    size := a.size - 1 }

def remove (a : Arena) (k : Nat) : Arena :=
  let x := a.prev (some k)
  let y := a.next (some k)
  ((a.setNext x y).setPrev y x).bury k

/-- Every cell dead; what they were linked to is not looked at again. -/
def clear (a : Arena) : Arena :=
  ⟨a.cells.map fun c => { c with live := false }, none, none, 0⟩

/-- The instructions met from a cell on, up to so many. -/
def walk (a : Arena) : Nat → Option Nat → List (Nat × Instruction)
  | 0, _ | _, none => []
  | fuel + 1, some k =>
    match a.cells[k]? with
    | some c => (k, c.instruction) :: a.walk fuel c.next
    | none => []

/-- The instructions in program order, each with the number of its cell. -/
def entries (a : Arena) : List (Nat × Instruction) := a.walk a.size a.head

/-! What an operation does is said by `next`, `prev` and `live?` after it. -/

section Observations

variable {a : Arena} {x y z : Option Nat} {k m : Nat} {i : Instruction}

/-- An end of the list or a cell that there is. -/
def Holds (a : Arena) (x : Option Nat) : Prop := ∀ k, x = some k → k < a.cells.size

theorem live?_eq_some : a.live? k = some i ↔
    ∃ c, a.cells[k]? = some c ∧ c.live = true ∧ c.instruction = i := by
  unfold live?
  split <;> simp_all

theorem lt_size_of_live? (h : a.live? k = some i) : k < a.cells.size := by
  obtain ⟨c, hc, -⟩ := live?_eq_some.1 h
  exact (Array.getElem?_eq_some_iff.1 hc).1

@[simp] theorem size_cells_setNext : (a.setNext x y).cells.size = a.cells.size := by
  cases x <;> simp [setNext]

@[simp] theorem size_cells_setPrev : (a.setPrev x y).cells.size = a.cells.size := by
  cases x <;> simp [setPrev]

@[simp] theorem size_setNext : (a.setNext x y).size = a.size := by
  cases x <;> rfl

@[simp] theorem size_setPrev : (a.setPrev x y).size = a.size := by
  cases x <;> rfl

theorem next_setNext (hx : a.Holds x) : (a.setNext x y).next z = if z = x then y else a.next z := by
  cases x with
  | none => cases z <;> simp [setNext, next]
  | some k =>
    cases z with
    | none => simp [setNext, next]
    | some m =>
      have hk := hx k rfl
      simp only [setNext, next, Array.getElem?_modify, Option.some.injEq]
      grind

@[simp] theorem prev_setNext : (a.setNext x y).prev z = a.prev z := by
  cases x <;> cases z <;> simp only [setNext, prev, Array.getElem?_modify]
  grind

theorem prev_setPrev (hx : a.Holds x) : (a.setPrev x y).prev z = if z = x then y else a.prev z := by
  cases x with
  | none => cases z <;> simp [setPrev, prev]
  | some k =>
    cases z with
    | none => simp [setPrev, prev]
    | some m =>
      have hk := hx k rfl
      simp only [setPrev, prev, Array.getElem?_modify, Option.some.injEq]
      grind

@[simp] theorem next_setPrev : (a.setPrev x y).next z = a.next z := by
  cases x <;> cases z <;> simp only [setPrev, next, Array.getElem?_modify]
  grind

@[simp] theorem live?_setNext : (a.setNext x y).live? m = a.live? m := by
  cases x <;> simp only [setNext, live?, Array.getElem?_modify]
  grind

@[simp] theorem live?_setPrev : (a.setPrev x y).live? m = a.live? m := by
  cases x <;> simp only [setPrev, live?, Array.getElem?_modify]
  grind

@[simp] theorem next_allocate : (a.allocate i).next z = a.next z := by
  cases z <;> simp only [allocate, next, Array.getElem?_push]
  grind

@[simp] theorem prev_allocate : (a.allocate i).prev z = a.prev z := by
  cases z <;> simp only [allocate, prev, Array.getElem?_push]
  grind

theorem live?_allocate :
    (a.allocate i).live? m = if m = a.cells.size then some i else a.live? m := by
  simp only [allocate, live?, Array.getElem?_push]
  grind

@[simp] theorem size_cells_insert : (a.insert x y i).cells.size = a.cells.size + 1 := by
  simp [insert, link, allocate]

@[simp] theorem size_insert : (a.insert x y i).size = a.size + 1 := by
  simp [insert, link, allocate]

@[simp] theorem size_cells_insertBefore {code : Code} :
    (a.insertBefore k code).cells.size = a.cells.size + code.length := by
  induction code generalizing a with
  | nil => rfl
  | cons j code ih => simp [insertBefore, ih]; omega

@[simp] theorem size_cells_insertAfter {code : Code} :
    (a.insertAfter k code).cells.size = a.cells.size + code.length := by
  induction code generalizing a k with
  | nil => rfl
  | cons j code ih => simp [insertAfter, ih]; omega

theorem next_insert (hx : a.Holds x) :
    (a.insert x y i).next z =
      if z = x then some a.cells.size else if z = some a.cells.size then y else a.next z := by
  have hn : (a.allocate i).Holds (some a.cells.size) := by simp [Holds, allocate]
  have hx' : (a.allocate i).Holds x := fun k hk => by
    simpa [allocate] using Nat.lt_succ_of_lt (hx k hk)
  simp only [insert, link, next_setPrev]
  rw [next_setNext, next_setNext, next_setPrev, next_allocate]
  · simpa [Holds] using hn
  · simpa [Holds] using hx'

theorem prev_insert (hy : a.Holds y) :
    (a.insert x y i).prev z =
      if z = y then some a.cells.size else if z = some a.cells.size then x else a.prev z := by
  have hn : (a.allocate i).Holds (some a.cells.size) := by simp [Holds, allocate]
  have hy' : (a.allocate i).Holds y := fun k hk => by
    simpa [allocate] using Nat.lt_succ_of_lt (hy k hk)
  simp only [insert, link]
  rw [prev_setPrev, prev_setNext, prev_setNext, prev_setPrev hn, prev_allocate]
  simpa [Holds] using hy'

theorem live?_insert :
    (a.insert x y i).live? m = if m = a.cells.size then some i else a.live? m := by
  simp [insert, link, live?_allocate]

@[simp] theorem size_cells_remove : (a.remove k).cells.size = a.cells.size := by
  simp [remove, bury]

@[simp] theorem size_remove : (a.remove k).size = a.size - 1 := by
  simp [remove, bury]

theorem next_bury (hk : k < a.cells.size) :
    (a.bury k).next z = if z = some k then none else a.next z := by
  cases z <;> simp only [bury, next, Array.getElem?_modify] <;> grind

theorem prev_bury (hk : k < a.cells.size) :
    (a.bury k).prev z = if z = some k then none else a.prev z := by
  cases z <;> simp only [bury, prev, Array.getElem?_modify] <;> grind

theorem live?_bury : (a.bury k).live? m = if m = k then none else a.live? m := by
  simp only [bury, live?, Array.getElem?_modify]
  grind

theorem next_remove (hk : k < a.cells.size) (hx : a.Holds (a.prev (some k))) :
    (a.remove k).next z = if z = some k then none
      else if z = a.prev (some k) then a.next (some k) else a.next z := by
  simp only [remove]
  rw [next_bury (by simpa using hk), next_setPrev, next_setNext hx]

theorem prev_remove (hk : k < a.cells.size) (hy : a.Holds (a.next (some k))) :
    (a.remove k).prev z = if z = some k then none
      else if z = a.next (some k) then a.prev (some k) else a.prev z := by
  simp only [remove]
  rw [prev_bury (by simpa using hk), prev_setPrev (by simpa [Holds] using hy), prev_setNext]

theorem live?_remove : (a.remove k).live? m = if m = k then none else a.live? m := by
  simp [remove, live?_bury]

theorem live?_clear : a.clear.live? m = none := by
  simp only [clear, live?, Array.getElem?_map]
  grind

end Observations

/-! Gaps of a list: gap `p` is where one more entry would stand at place `p`. -/

section Gaps

variable {l l₁ l₂ : List (Nat × Instruction)} {e : Nat × Instruction} {k p q : Nat}

def after (l : List (Nat × Instruction)) (p : Nat) : Option Nat := l[p]?.map Prod.fst

def before (l : List (Nat × Instruction)) : Nat → Option Nat
  | 0 => none
  | p + 1 => after l p

theorem after_eq_getElem? : after l p = (l.map Prod.fst)[p]? := by
  simp [after]

theorem after_inj (h : (l.map Prod.fst).Nodup) (hp : p ≤ l.length) (hq : q ≤ l.length)
    (heq : after l p = after l q) : p = q := by
  rw [after_eq_getElem?, after_eq_getElem?] at heq
  grind [List.getElem?_inj]

theorem before_inj (h : (l.map Prod.fst).Nodup) (hp : p ≤ l.length) (hq : q ≤ l.length)
    (heq : before l p = before l q) : p = q := by
  have hne {q : Nat} (hq : q + 1 ≤ l.length) : after l q ≠ none := by grind [after]
  cases p with
  | zero =>
    cases q with
    | zero => rfl
    | succ q => exact absurd heq.symm (hne hq)
  | succ p =>
    cases q with
    | zero => exact absurd heq (hne hp)
    | succ q => rw [after_inj h (by omega) (by omega) heq]

theorem after_length (l₁ l₂ : List (Nat × Instruction)) :
    after (l₁ ++ l₂) l₁.length = l₂.head?.map Prod.fst := by
  rw [after, List.getElem?_append_right (Nat.le_refl _), Nat.sub_self, List.head?_eq_getElem?]

theorem before_length (l₁ l₂ : List (Nat × Instruction)) :
    before (l₁ ++ l₂) l₁.length = l₁.getLast?.map Prod.fst := by
  cases hn : l₁.length with
  | zero => simp [List.length_eq_zero_iff.1 hn, before]
  | succ n =>
    rw [before, after, List.getElem?_append_left (by omega), List.getLast?_eq_getElem?, hn,
      Nat.add_sub_cancel]

theorem after_append_of_lt (h : p < l₁.length) : after (l₁ ++ e :: l₂) p = after (l₁ ++ l₂) p := by
  simp [after, List.getElem?_append, h]

theorem mem_of_after (h : after l p = some k) : k ∈ l.map Prod.fst :=
  List.mem_of_getElem? (after_eq_getElem?.symm.trans h)

theorem mem_of_before (h : before l p = some k) : k ∈ l.map Prod.fst := by
  cases p with
  | zero => cases h
  | succ p => exact mem_of_after h

theorem after_append_self : after (l₁ ++ e :: l₂) l₁.length = some e.1 := by
  simp [after]

theorem after_append_succ (h : l₁.length ≤ p) :
    after (l₁ ++ e :: l₂) (p + 1) = after (l₁ ++ l₂) p := by
  grind [after]

theorem before_append_of_le (h : p ≤ l₁.length) :
    before (l₁ ++ e :: l₂) p = before (l₁ ++ l₂) p := by
  cases p with
  | zero => rfl
  | succ p => exact after_append_of_lt h

theorem before_append_succ (h : l₁.length < p) :
    before (l₁ ++ e :: l₂) (p + 1) = before (l₁ ++ l₂) p := by
  cases p with
  | zero => cases h
  | succ p => exact after_append_succ (Nat.le_of_lt_succ h)

end Gaps

/-- The arena holds a list: neighbours are linked both ways, and the live cells are its entries. -/
structure Lists (a : Arena) (l : List (Nat × Instruction)) : Prop where
  next_before : ∀ p ≤ l.length, a.next (before l p) = after l p
  prev_after : ∀ p ≤ l.length, a.prev (after l p) = before l p
  live_iff : ∀ k i, a.live? k = some i ↔ (k, i) ∈ l
  nodup : (l.map Prod.fst).Nodup
  size_eq : a.size = l.length

namespace Lists

variable {a : Arena} {l l₁ l₂ : List (Nat × Instruction)} {i j : Instruction} {k p : Nat}

theorem lt_size (h : a.Lists l) (hk : (k, i) ∈ l) : k < a.cells.size :=
  lt_size_of_live? ((h.live_iff k i).2 hk)

theorem holds_after (h : a.Lists l) : a.Holds (after l p) := by
  intro k hk
  obtain ⟨e, he, rfl⟩ := Option.map_eq_some_iff.1 hk
  exact h.lt_size (List.mem_of_getElem? he)

theorem holds_before (h : a.Lists l) : a.Holds (before l p) := by
  cases p with
  | zero => simp [before, Holds]
  | succ p => exact h.holds_after

theorem after_ne (h : a.Lists l) : after l p ≠ some a.cells.size := fun heq =>
  Nat.lt_irrefl _ (h.holds_after _ heq)

theorem before_ne (h : a.Lists l) : before l p ≠ some a.cells.size := fun heq =>
  Nat.lt_irrefl _ (h.holds_before _ heq)

theorem empty : Arena.empty.Lists [] := by
  constructor <;> simp [Arena.empty, next, prev, live?, before, after]

/-- A new entry takes up the gap: the gaps before it stay, and those after it move up. -/
theorem insert (h : a.Lists (l₁ ++ l₂)) :
    (a.insert (before (l₁ ++ l₂) l₁.length) (after (l₁ ++ l₂) l₁.length) i).Lists
      (l₁ ++ (a.cells.size, i) :: l₂) := by
  have hlen : (l₁ ++ (a.cells.size, i) :: l₂).length = (l₁ ++ l₂).length + 1 := by simp; omega
  have hle : l₁.length ≤ (l₁ ++ l₂).length := by simp
  have hbefore {p : Nat} (hp : p ≤ (l₁ ++ l₂).length) (hne : p ≠ l₁.length) :
      before (l₁ ++ l₂) p ≠ before (l₁ ++ l₂) l₁.length :=
    fun heq => hne (before_inj h.nodup hp hle heq)
  have hafter {p : Nat} (hp : p ≤ (l₁ ++ l₂).length) (hne : p ≠ l₁.length) :
      after (l₁ ++ l₂) p ≠ after (l₁ ++ l₂) l₁.length :=
    fun heq => hne (after_inj h.nodup hp hle heq)
  constructor
  · intro p hp
    rw [next_insert h.holds_before]
    obtain hlt | rfl | rfl | ⟨q, rfl, hq⟩ : p < l₁.length ∨ p = l₁.length ∨ p = l₁.length + 1 ∨
        ∃ q, p = q + 1 ∧ l₁.length < q := by
      rcases p with _ | p <;> grind
    · rw [before_append_of_le (Nat.le_of_lt hlt), after_append_of_lt hlt,
        if_neg (hbefore (by omega) (Nat.ne_of_lt hlt)), if_neg h.before_ne,
        h.next_before p (by omega)]
    · rw [before_append_of_le (Nat.le_refl _), after_append_self, if_pos rfl]
    · rw [before, after_append_self, after_append_succ (Nat.le_refl _), if_neg h.before_ne.symm,
        if_pos rfl]
    · rw [before_append_succ hq, after_append_succ (Nat.le_of_lt hq),
        if_neg (hbefore (by omega) (Nat.ne_of_gt hq)), if_neg h.before_ne,
        h.next_before q (by omega)]
  · intro p hp
    rw [prev_insert h.holds_after]
    obtain hlt | rfl | rfl | ⟨q, rfl, hq⟩ : p < l₁.length ∨ p = l₁.length ∨ p = l₁.length + 1 ∨
        ∃ q, p = q + 1 ∧ l₁.length < q := by
      rcases p with _ | p <;> grind
    · rw [before_append_of_le (Nat.le_of_lt hlt), after_append_of_lt hlt,
        if_neg (hafter (by omega) (Nat.ne_of_lt hlt)), if_neg h.after_ne, h.prev_after p (by omega)]
    · rw [before_append_of_le (Nat.le_refl _), after_append_self, if_neg h.after_ne.symm,
        if_pos rfl]
    · rw [before, after_append_self, after_append_succ (Nat.le_refl _), if_pos rfl]
    · rw [before_append_succ hq, after_append_succ (Nat.le_of_lt hq),
        if_neg (hafter (by omega) (Nat.ne_of_gt hq)), if_neg h.after_ne,
        h.prev_after q (by omega)]
  · intro k j
    have hnot : (a.cells.size, j) ∉ l₁ ++ l₂ := fun hmem => Nat.lt_irrefl _ (h.lt_size hmem)
    rw [live?_insert]
    split
    · rename_i hk
      simp_all [eq_comm]
    · rename_i hk
      simp [h.live_iff, hk]
  · have hnot : a.cells.size ∉ (l₁ ++ l₂).map Prod.fst := fun hmem => by
      obtain ⟨⟨k, j⟩, hk, hsize⟩ := List.mem_map.1 hmem
      exact Nat.lt_irrefl _ (hsize ▸ h.lt_size hk)
    rw [List.map_append, List.map_cons, List.perm_middle.nodup_iff, ← List.map_append]
    exact List.nodup_cons.2 ⟨hnot, h.nodup⟩
  · rw [size_insert, h.size_eq, hlen]

/-- The gaps on both sides of the removed entry become one. -/
theorem remove (h : a.Lists (l₁ ++ (k, i) :: l₂)) : (a.remove k).Lists (l₁ ++ l₂) := by
  have hlen : (l₁ ++ (k, i) :: l₂).length = (l₁ ++ l₂).length + 1 := by simp; omega
  have hle : l₁.length ≤ (l₁ ++ l₂).length := by simp
  have hk : k < a.cells.size := h.lt_size (i := i) (by simp)
  have hsplit : ((k, i) :: (l₁ ++ l₂)).map Prod.fst |>.Nodup :=
    (List.perm_middle.map _).nodup_iff.1 h.nodup
  obtain ⟨hnot, hnodup⟩ := List.nodup_cons.1 hsplit
  have hbefore {p : Nat} (hp : p ≤ (l₁ ++ l₂).length) (hne : p ≠ l₁.length) :
      before (l₁ ++ l₂) p ≠ before (l₁ ++ l₂) l₁.length :=
    fun heq => hne (before_inj hnodup hp hle heq)
  have hafter {p : Nat} (hp : p ≤ (l₁ ++ l₂).length) (hne : p ≠ l₁.length) :
      after (l₁ ++ l₂) p ≠ after (l₁ ++ l₂) l₁.length :=
    fun heq => hne (after_inj hnodup hp hle heq)
  have hprev : a.prev (some k) = before (l₁ ++ l₂) l₁.length := by
    have := h.prev_after l₁.length (by omega)
    rwa [after_append_self, before_append_of_le (Nat.le_refl _)] at this
  have hnext : a.next (some k) = after (l₁ ++ l₂) l₁.length := by
    have := h.next_before (l₁.length + 1) (by omega)
    rwa [before, after_append_self, after_append_succ (Nat.le_refl _)] at this
  have hx : a.Holds (a.prev (some k)) := by
    rw [hprev, ← before_append_of_le (Nat.le_refl _)]
    exact h.holds_before
  have hy : a.Holds (a.next (some k)) := by
    rw [hnext, ← after_append_succ (Nat.le_refl _)]
    exact h.holds_after
  constructor
  · intro p hp
    rw [next_remove hk hx, hprev, hnext, if_neg fun heq => hnot (mem_of_before heq)]
    rcases Nat.lt_trichotomy p l₁.length with hlt | rfl | hgt
    · have hold := h.next_before p (by omega)
      rw [before_append_of_le (Nat.le_of_lt hlt), after_append_of_lt hlt] at hold
      rw [if_neg (hbefore hp (Nat.ne_of_lt hlt)), hold]
    · rw [if_pos rfl]
    · have hold := h.next_before (p + 1) (by omega)
      rw [before_append_succ hgt, after_append_succ (Nat.le_of_lt hgt)] at hold
      rw [if_neg (hbefore hp (Nat.ne_of_gt hgt)), hold]
  · intro p hp
    rw [prev_remove hk hy, hprev, hnext, if_neg fun heq => hnot (mem_of_after heq)]
    rcases Nat.lt_trichotomy p l₁.length with hlt | rfl | hgt
    · have hold := h.prev_after p (by omega)
      rw [before_append_of_le (Nat.le_of_lt hlt), after_append_of_lt hlt] at hold
      rw [if_neg (hafter hp (Nat.ne_of_lt hlt)), hold]
    · rw [if_pos rfl]
    · have hold := h.prev_after (p + 1) (by omega)
      rw [before_append_succ hgt, after_append_succ (Nat.le_of_lt hgt)] at hold
      rw [if_neg (hafter hp (Nat.ne_of_gt hgt)), hold]
  · intro m j
    rw [live?_remove]
    split
    · rename_i hm
      have hmem : (m, j) ∉ l₁ ++ l₂ := fun hmem => hnot (List.mem_map.2 ⟨_, hmem, hm⟩)
      simpa using hmem
    · rename_i hm
      simp [h.live_iff, hm]
  · exact hnodup
  · rw [size_remove, h.size_eq, hlen, Nat.add_sub_cancel]

theorem clear : a.clear.Lists [] := by
  constructor <;> simp [live?_clear] <;> simp [Arena.clear, before, after, next, prev]

theorem pushBack (h : a.Lists l) : (a.pushBack i).Lists (l ++ [(a.cells.size, i)]) := by
  have htail : a.tail = before l l.length := by
    have := h.prev_after l.length (Nat.le_refl _)
    simpa [after, prev] using this
  rw [Arena.pushBack, htail]
  rw [← List.append_nil l] at h
  simpa [after] using h.insert (i := i)

theorem pushFront (h : a.Lists l) : (a.pushFront i).Lists ((a.cells.size, i) :: l) := by
  have hhead : a.head = after l 0 := h.next_before 0 (Nat.zero_le _)
  rw [Arena.pushFront, hhead]
  exact insert (show a.Lists ([] ++ l) from h)

theorem insertBefore {code : Code} (h : a.Lists (l₁ ++ (k, i) :: l₂)) :
    (a.insertBefore k code).Lists (l₁ ++ code.numbered a.cells.size ++ (k, i) :: l₂) := by
  induction code generalizing a l₁ with
  | nil => simpa [Arena.insertBefore, Code.numbered] using h
  | cons j code ih =>
    have hprev := h.prev_after l₁.length (by simp)
    have hstep := h.insert (i := j)
    rw [after_append_self] at hprev hstep
    rw [← hprev, List.append_cons] at hstep
    simpa [Arena.insertBefore, Code.numbered] using ih hstep

theorem insertAfter {code : Code} (h : a.Lists (l₁ ++ (k, i) :: l₂)) :
    (a.insertAfter k code).Lists (l₁ ++ (k, i) :: code.numbered a.cells.size ++ l₂) := by
  induction code generalizing a l₁ k i with
  | nil => simpa [Arena.insertAfter, Code.numbered] using h
  | cons j code ih =>
    rw [List.append_cons] at h
    have hlast : before (l₁ ++ [(k, i)] ++ l₂) (l₁ ++ [(k, i)]).length = some k := by
      simp [before, after]
    have hnext := h.next_before (l₁ ++ [(k, i)]).length (by simp)
    have hstep := h.insert (i := j)
    rw [hlast] at hnext hstep
    rw [← hnext] at hstep
    simpa [Arena.insertAfter, Code.numbered] using ih hstep

/-- From a gap on the walk meets the entries after it and stops there, however much further it
could go. -/
theorem walk_after (h : a.Lists l) {fuel : Nat} (hp : p ≤ l.length) (hfuel : l.length ≤ p + fuel) :
    a.walk fuel (after l p) = l.drop p := by
  induction fuel generalizing p with
  | zero =>
    rw [List.drop_eq_nil_of_le (by omega), walk]
  | succ fuel ih =>
    rcases Nat.lt_or_ge p l.length with hlt | hge
    · have hafter : after l p = some l[p].1 := by simp [after, hlt]
      have hmem : (l[p].1, l[p].2) ∈ l := List.getElem_mem hlt
      obtain ⟨c, hc, -, hi⟩ := live?_eq_some.1 ((h.live_iff _ _).2 hmem)
      have hnext := h.next_before (p + 1) hlt
      rw [before, hafter, next, hc, Option.bind_some] at hnext
      simp only [hafter, walk, hc, hi, hnext]
      rw [ih hlt (by omega), List.drop_eq_getElem_cons hlt]
    · rw [List.drop_eq_nil_of_le hge, after, List.getElem?_eq_none hge]
      rfl

theorem entries_eq (h : a.Lists l) : a.entries = l := by
  have hhead : a.head = after l 0 := h.next_before 0 (Nat.zero_le _)
  rw [entries, hhead, h.walk_after (Nat.zero_le _) (by simp [h.size_eq]), List.drop_zero]

end Lists

/-- The arena holds what a walk through it meets. -/
def Linked (a : Arena) : Prop := a.Lists a.entries

theorem Lists.linked {a : Arena} {l : List (Nat × Instruction)} (h : a.Lists l) : a.Linked := by
  rw [Linked, h.entries_eq]
  exact h

namespace Linked

variable {a : Arena} {k : Nat} {i : Instruction} {code : Code}

theorem exists_split (h : a.Linked) (hk : (a.live? k).isSome) :
    ∃ l₁ i l₂, a.entries = l₁ ++ (k, i) :: l₂ := by
  obtain ⟨i, hi⟩ := Option.isSome_iff_exists.1 hk
  obtain ⟨l₁, l₂, hsplit⟩ := List.append_of_mem ((h.live_iff k i).1 hi)
  exact ⟨l₁, i, l₂, hsplit⟩

theorem pushBack (h : a.Linked) : (a.pushBack i).Linked := (Lists.pushBack h).linked

theorem pushFront (h : a.Linked) : (a.pushFront i).Linked := (Lists.pushFront h).linked

theorem insertBefore (h : a.Linked) (hk : (a.live? k).isSome) : (a.insertBefore k code).Linked := by
  obtain ⟨l₁, i, l₂, hsplit⟩ := h.exists_split hk
  rw [Linked, hsplit] at h
  exact h.insertBefore.linked

theorem insertAfter (h : a.Linked) (hk : (a.live? k).isSome) : (a.insertAfter k code).Linked := by
  obtain ⟨l₁, i, l₂, hsplit⟩ := h.exists_split hk
  rw [Linked, hsplit] at h
  exact h.insertAfter.linked

theorem remove (h : a.Linked) (hk : (a.live? k).isSome) : (a.remove k).Linked := by
  obtain ⟨l₁, i, l₂, hsplit⟩ := h.exists_split hk
  rw [Linked, hsplit] at h
  exact h.remove.linked

end Linked

end Arena

end CodeWeaving
