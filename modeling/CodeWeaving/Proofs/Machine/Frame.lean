import CodeWeaving.Instruction.Basic

/-! Frames of a stack machine that keeps values slot by slot: a wide value has its second half in a
slot of its own, on the stack and among the locals alike. -/
namespace CodeWeaving.Machine

variable {Ref : Type}

/-- A value of one of the kinds; a reference names an object, or none. -/
inductive Value (Ref : Type) where
  | int (n : Int32)
  | long (n : Int64)
  | float (x : Float32)
  | double (x : Float)
  | reference (object : Option Ref)

inductive Slot (Ref : Type) where
  | value (v : Value Ref)
  /-- The second half of a wide value. -/
  | upper

namespace Value

def kind : Value Ref → ValueKind
  | .int _ => .int
  | .long _ => .long
  | .float _ => .float
  | .double _ => .double
  | .reference _ => .reference

/-- The slots a value fills on the stack, the top one first. -/
def slots (v : Value Ref) : List (Slot Ref) :=
  if v.kind.width = 2 then [.upper, .value v] else [.value v]

def zero : ValueKind → Value Ref
  | .int => .int 0
  | .long => .long 0
  | .float => .float 0
  | .double => .double 0
  | .reference => .reference none

theorem kind_zero (k : ValueKind) : (zero k : Value Ref).kind = k := by cases k <;> rfl

theorem exists_of_kinds (kinds : List ValueKind) :
    ∃ values : List (Value Ref), values.map kind = kinds := by
  refine ⟨kinds.map zero, ?_⟩
  rw [List.map_map]
  exact (List.map_congr_left fun k _ => kind_zero k).trans (List.map_id kinds)

/-- The value, or zero if it is of another kind. -/
def ofKind (v : Value Ref) (k : ValueKind) : Value Ref := if v.kind = k then v else zero k

theorem kind_ofKind (v : Value Ref) (k : ValueKind) : (v.ofKind k).kind = k := by
  unfold ofKind
  split
  · assumption
  · exact kind_zero k

end Value

/-- Takes a value of a kind off a stack. -/
def take (k : ValueKind) : List (Slot Ref) → Option (Value Ref × List (Slot Ref))
  | .upper :: .value v :: rest => if v.kind = k ∧ k.width = 2 then some (v, rest) else none
  | .value v :: rest => if v.kind = k ∧ k.width = 1 then some (v, rest) else none
  | _ => none

theorem take_eq_some {k : ValueKind} {stack rest : List (Slot Ref)} {v : Value Ref} :
    take k stack = some (v, rest) ↔ v.kind = k ∧ stack = v.slots ++ rest := by
  constructor
  · intro h
    unfold take at h
    split at h
    · split at h
      · rename_i hk
        cases h
        simp [Value.slots, hk]
      · cases h
    · split at h
      · rename_i hk
        cases h
        simp [Value.slots, hk]
      · cases h
    · cases h
  · rintro ⟨rfl, rfl⟩
    cases v <;> simp [Value.slots, take, Value.kind, ValueKind.width]

/-- Values side by side on a stack, the last one on top. -/
def stacked : List (Value Ref) → List (Slot Ref)
  | [] => []
  | v :: values => stacked values ++ v.slots

theorem stacked_append (a b : List (Value Ref)) : stacked (a ++ b) = stacked b ++ stacked a := by
  induction a with
  | nil => simp [stacked]
  | cons v a ih => simp [stacked, ih]

/-- The slots of a value that may be missing, as what a call leaves on the stack is. -/
def pushed (v : Option (Value Ref)) : List (Slot Ref) := (v.map Value.slots).getD []

/-- Takes values of some kinds off a stack, the last one first. -/
def takeAll : List ValueKind → List (Slot Ref) → Option (List (Value Ref) × List (Slot Ref))
  | [], stack => some ([], stack)
  | k :: kinds, stack => do
    let (values, stack) ← takeAll kinds stack
    let (v, stack) ← take k stack
    pure (v :: values, stack)

theorem takeAll_eq_some {kinds : List ValueKind} {stack rest : List (Slot Ref)}
    {values : List (Value Ref)} : takeAll kinds stack = some (values, rest) ↔
      values.map Value.kind = kinds ∧ stack = stacked values ++ rest := by
  induction kinds generalizing values rest with
  | nil =>
    simp only [takeAll, Option.some.injEq, Prod.mk.injEq, List.map_eq_nil_iff]
    constructor
    · rintro ⟨rfl, rfl⟩
      exact ⟨rfl, rfl⟩
    · rintro ⟨rfl, h⟩
      exact ⟨rfl, h⟩
  | cons k kinds ih =>
    simp only [takeAll, Option.bind_eq_bind, Option.bind_eq_some_iff, Option.pure_def,
      Option.some.injEq, Prod.mk.injEq, Prod.exists]
    constructor
    · rintro ⟨vs, mid, hvs, v, stack', hv, rfl, rfl⟩
      obtain ⟨hkinds, rfl⟩ := ih.1 hvs
      obtain ⟨rfl, rfl⟩ := take_eq_some.1 hv
      simp [hkinds, stacked]
    · rintro ⟨hkinds, rfl⟩
      cases values with
      | nil => cases hkinds
      | cons v vs =>
        rw [List.map_cons, List.cons.injEq] at hkinds
        refine ⟨vs, v.slots ++ rest, ih.2 ⟨hkinds.2, by simp [stacked]⟩, v, rest,
          take_eq_some.2 ⟨hkinds.1, rfl⟩, rfl, rfl⟩

/-- What the local slots hold, if anything. -/
abbrev Locals (Ref : Type) := Nat → Option (Slot Ref)

namespace Locals

variable {l l' : Locals Ref} {slot n : Nat} {v : Value Ref} {k : ValueKind}

/-- The value has its slots from a number on. -/
structure Holds (l : Locals Ref) (slot : Nat) (v : Value Ref) : Prop where
  value : l slot = some (.value v)
  upper : v.kind.width = 2 → l (slot + 1) = some .upper

def load (l : Locals Ref) (slot : Nat) (k : ValueKind) : Option (Value Ref) :=
  match l slot, l (slot + 1) with
  | some (.value v), some .upper => if v.kind = k then some v else none
  | some (.value v), _ => if v.kind = k ∧ k.width = 1 then some v else none
  | _, _ => none

theorem load_eq_some : l.load slot k = some v ↔ v.kind = k ∧ l.Holds slot v := by
  constructor
  · intro h
    unfold load at h
    split at h
    · split at h
      · cases h
        exact ⟨‹_›, ‹_›, fun _ => ‹_›⟩
      · cases h
    · split at h
      · rename_i hk
        cases h
        exact ⟨hk.1, ‹_›, fun hwide => by rw [hk.1, hk.2] at hwide; cases hwide⟩
      · cases h
    · cases h
  · rintro ⟨rfl, hvalue, hupper⟩
    unfold load
    rw [hvalue]
    rcases Nat.lt_or_ge v.kind.width 2 with hnarrow | hwide
    · have hone : v.kind.width = 1 := Nat.le_antisymm (Nat.le_of_lt_succ hnarrow) v.kind.width_pos
      split <;> simp_all
    · rw [hupper (Nat.le_antisymm v.kind.width_le_two hwide)]
      simp

def store (l : Locals Ref) (slot : Nat) (v : Value Ref) : Locals Ref := fun n =>
  if n = slot then some (.value v)
  else if n = slot + 1 ∧ v.kind.width = 2 then some .upper
  else l n

theorem holds_store : (l.store slot v).Holds slot v where
  value := by simp [store]
  upper hwide := by simp [store, hwide]

theorem store_of_outside (h : n < slot ∨ slot + v.kind.width ≤ n) : l.store slot v n = l n := by
  have hpos := v.kind.width_pos
  rw [store, if_neg (by omega), if_neg (by omega)]

/-- A value stays where its own slots do. -/
theorem Holds.congr (h : l.Holds slot v)
    (hl : ∀ k, slot ≤ k → k < slot + v.kind.width → l' k = l k) : l'.Holds slot v where
  value := by rw [hl slot (Nat.le_refl _) (Nat.lt_add_of_pos_right v.kind.width_pos), h.value]
  upper hwide := by rw [hl (slot + 1) (Nat.le_succ _) (by omega), h.upper hwide]

/-- The locals agree up to a number. -/
def Agree (n : Nat) (l l' : Locals Ref) : Prop := ∀ k < n, l' k = l k

theorem Agree.refl : Agree n l l := fun _ _ => rfl

theorem Agree.trans {l'' : Locals Ref} (h : Agree n l l') (h' : Agree n l' l'') : Agree n l l'' :=
  fun k hk => (h' k hk).trans (h k hk)

theorem agree_store (h : n ≤ slot) : Agree n l (l.store slot v) := fun _ hk =>
  store_of_outside (Or.inl (Nat.lt_of_lt_of_le hk h))

/-- What is stored below the number is the same after it in both. -/
theorem Agree.store (h : Agree n l l') : Agree n (l.store slot v) (l'.store slot v) :=
  fun _ hk => by simp only [Locals.store, h _ hk]

end Locals

/-- What an instruction acts on; the stack with its top first. -/
structure Frame (Ref : Type) where
  stack : List (Slot Ref)
  locals : Locals Ref

def Frame.push (f : Frame Ref) (v : Value Ref) : Frame Ref :=
  { f with stack := v.slots ++ f.stack }

end CodeWeaving.Machine
