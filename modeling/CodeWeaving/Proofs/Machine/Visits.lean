import CodeWeaving.Proofs.Machine.Execution
import CodeWeaving.Proofs.Stream.Listing

/-! Runs of a method that also has woven code in it, and which instructions they come to. The
method's own instructions and the woven ones have surroundings of their own. -/
namespace CodeWeaving.Machine

variable {Ref : Type} {S T : Surroundings Ref} {f g f' g' : Frame Ref} {i : Instruction} {low : Nat}

/-- The frames have the same stack and the same locals up to a number. -/
structure Frame.Same (low : Nat) (f g : Frame Ref) : Prop where
  stack : g.stack = f.stack
  locals : Locals.Agree low f.locals g.locals

/-- The acts differ in nothing but such frames. -/
inductive Act.Same (low : Nat) : Act Ref → Act Ref → Prop where
  | go {f g : Frame Ref} (h : f.Same low g) : Same low (.go f) (.go g)
  | jump {f g : Frame Ref} {l : Label} (h : f.Same low g) : Same low (.jump l f) (.jump l g)
  | leave {result : Option (Value Ref)} : Same low (.leave result) (.leave result)
  | raise : Same low .raise .raise
  | ask {f g : Frame Ref} {q : Request Ref} (h : f.Same low g) : Same low (.ask q f) (.ask q g)

namespace Frame

theorem Same.refl : Same low f f := ⟨rfl, .refl⟩

theorem Same.push (h : Same low f g) (v : Value Ref) : Same low (f.push v) (g.push v) :=
  ⟨congrArg (v.slots ++ ·) h.stack, h.locals⟩

theorem Same.pushConstant (h : Same low f g) (c : Constant) :
    Act.Same low (f.pushConstant c) (g.pushConstant c) := by
  cases c with
  | string s => exact .ask h
  | _ => exact .go (h.push _)

theorem Same.load {slot : Nat} {k : ValueKind} {v : Value Ref} (h : Same low f g)
    (hslot : slot + k.width ≤ low) (hv : f.locals.load slot k = some v) :
    g.locals.load slot k = some v := by
  obtain ⟨rfl, hholds⟩ := Locals.load_eq_some.1 hv
  exact Locals.load_eq_some.2 ⟨rfl, hholds.congr fun k _ hk => h.locals k (by omega)⟩

section

variable {stack : List (Slot Ref)} {l l' : Locals Ref} {a : Act Ref} (hl : Locals.Agree low l l')

include hl

theorem same_of_agree (stack : List (Slot Ref)) : Same low ⟨stack, l⟩ ⟨stack, l'⟩ := ⟨rfl, hl⟩

theorem beginRaw_of_agree {r : RawInstruction} (hr : (Instruction.raw r).localsNeeded ≤ low)
    (ha : beginRaw r ⟨stack, l⟩ = some a) :
    ∃ b, beginRaw r ⟨stack, l'⟩ = some b ∧ Act.Same low a b := by
  unfold beginRaw at ha ⊢
  split at ha
  · rename_i hiinc
    rw [if_pos hiinc]
    simp only [Option.bind_eq_bind, Option.bind_eq_some_iff] at ha
    obtain ⟨slot, hslot, amount, hamount, v, hv, ha⟩ := ha
    have hneeded : slot.toNat + ValueKind.int.width ≤ low := by
      simpa [Instruction.localsNeeded, hiinc, List.head?_eq_getElem?, hslot, ValueKind.width]
        using hr
    simp only [hslot, hamount, (same_of_agree hl stack).load hneeded hv, Option.bind_eq_bind,
      Option.bind_some]
    cases v <;> cases ha
    exact ⟨_, rfl, .go ⟨rfl, Locals.Agree.store hl⟩⟩
  · rename_i hiinc
    rw [if_neg hiinc]
    split at ha
    · cases ha
      exact ⟨_, rfl, (same_of_agree hl stack).pushConstant _⟩
    · split at ha
      · simp only [Option.bind_eq_bind, Option.bind_eq_some_iff, Prod.exists] at ha ⊢
        obtain ⟨v, stack, hv, ha⟩ := ha
        cases ha
        exact ⟨_, ⟨v, stack, hv, rfl⟩, .go ((same_of_agree hl stack).push _)⟩
      · split at ha
        · rename_i hpops
          rw [if_pos hpops]
          split at ha
          · rename_i hthrow
            cases ha
            exact ⟨_, if_pos hthrow, .raise⟩
          · rename_i hthrow
            cases ha
            exact ⟨_, if_neg hthrow, .ask (same_of_agree hl _)⟩
        · cases ha

end

/-- An instruction does the same in both frames, if they agree on the locals it needs. -/
theorem Same.begin {a : Act Ref} (h : Same low f g) (hi : i.localsNeeded ≤ low)
    (ha : begin i f = some a) : ∃ b, Machine.begin i g = some b ∧ Act.Same low a b := by
  obtain ⟨stack, l⟩ := f
  obtain ⟨stack', l'⟩ := g
  obtain ⟨rfl, hl⟩ := h
  dsimp only at hl
  have hsame := same_of_agree hl
  cases i with
  | pushConstant c =>
    cases ha
    exact ⟨_, rfl, (hsame _).pushConstant c⟩
  | loadLocal slot k =>
    simp only [Machine.begin, Option.bind_eq_bind, Option.bind_eq_some_iff] at ha ⊢
    obtain ⟨v, hv, ha⟩ := ha
    cases ha
    exact ⟨_, ⟨v, (hsame stack').load hi hv, rfl⟩, .go ((hsame _).push v)⟩
  | storeLocal slot k =>
    simp only [Machine.begin, Option.bind_eq_bind, Option.bind_eq_some_iff, Prod.exists] at ha ⊢
    obtain ⟨v, stack, hv, ha⟩ := ha
    cases ha
    exact ⟨_, ⟨v, stack, hv, rfl⟩, .go ⟨rfl, Locals.Agree.store hl⟩⟩
  | invoke _ _ | field _ _ | checkCast _ =>
    simp only [Machine.begin, Option.bind_eq_bind, Option.bind_eq_some_iff, Prod.exists] at ha ⊢
    obtain ⟨v, stack, hv, ha⟩ := ha
    cases ha
    exact ⟨_, ⟨v, stack, hv, rfl⟩, .ask (hsame _)⟩
  | new cls =>
    cases ha
    exact ⟨_, rfl, .ask (hsame _)⟩
  | dup | dupX1 | dupX2 | swap | pop | pop2 =>
    obtain _ | ⟨x, _ | ⟨y, _ | ⟨z, stack⟩⟩⟩ := stack' <;> cases ha <;>
      exact ⟨_, rfl, .go (hsame _)⟩
  | branch condition label =>
    simp only [Machine.begin] at ha ⊢
    split at ha
    · cases ha
      exact ⟨_, rfl, .jump (hsame _)⟩
    · simp only [Option.bind_eq_bind, Option.bind_eq_some_iff, Prod.exists] at ha ⊢
      obtain ⟨v, stack, hv, ha⟩ := ha
      cases ha
      refine ⟨_, ⟨v, stack, hv, rfl⟩, ?_⟩
      split
      · exact .jump (hsame _)
      · exact .go (hsame _)
  | ret k =>
    cases k with
    | none =>
      cases ha
      exact ⟨_, rfl, .leave⟩
    | some k =>
      simp only [Machine.begin, Option.bind_eq_bind, Option.bind_eq_some_iff, Prod.exists] at ha ⊢
      obtain ⟨v, stack, hv, ha⟩ := ha
      cases ha
      exact ⟨_, ⟨v, stack, hv, rfl⟩, .leave⟩
  | label label =>
    cases ha
    exact ⟨_, rfl, .go (hsame _)⟩
  | raw r => exact beginRaw_of_agree hl hi ha

end Frame

section Moves

variable {code : Code} {pc p : Nat} {w w' : S.World} {l : Label} {target : Option Label}

/-- The instruction lets the run go on, at a label if it jumps. -/
inductive Moves (S : Surroundings Ref) (i : Instruction) (w : S.World) (f : Frame Ref) :
    Option Label → S.World → Frame Ref → Prop where
  | go {g : Frame Ref} (h : begin i f = some (.go g)) : Moves S i w f none w g
  | jump {l : Label} {g : Frame Ref} (h : begin i f = some (.jump l g)) : Moves S i w f (some l) w g
  | ask {q : Request Ref} {g : Frame Ref} {reply : List (Slot Ref)} {w' : S.World}
      (h : begin i f = some (.ask q g)) (hreply : S.answer q w = some (reply, w')) :
      Moves S i w f none w' { g with stack := reply ++ g.stack }

theorem step_eq_at : S.step code pc w f = some (.at p w' g) ↔
    ∃ i target, code[pc]? = some i ∧ Moves S i w f target w' g ∧
      match target with
      | none => p = pc + 1
      | some l => Surroundings.placeOf code l = some p := by
  unfold Surroundings.step
  simp only [Option.bind_eq_bind, Option.bind_eq_some_iff]
  constructor
  · rintro ⟨i, hi, a, ha, h⟩
    cases a with
    | go g =>
      cases h
      exact ⟨i, none, hi, .go ha, rfl⟩
    | jump l g =>
      obtain ⟨p, hp, h⟩ := Option.map_eq_some_iff.1 h
      cases h
      exact ⟨i, some l, hi, .jump ha, hp⟩
    | leave | raise => cases h
    | ask q g =>
      obtain ⟨⟨reply, w'⟩, hreply, h⟩ := Option.map_eq_some_iff.1 h
      cases h
      exact ⟨i, none, hi, .ask ha hreply, rfl⟩
  · rintro ⟨i, target, hi, hmoves, hp⟩
    cases hmoves with
    | go ha =>
      subst hp
      exact ⟨i, hi, _, ha, rfl⟩
    | jump ha => exact ⟨i, hi, _, ha, by simp only [hp, Option.map_some]⟩
    | ask ha hreply =>
      subst hp
      exact ⟨i, hi, _, ha, by simp only [hreply, Option.map_some]⟩

/-- An instruction that goes on finds what it needs. -/
theorem exists_begin_of_step (h : S.step code pc w f = some (.at p w' g))
    (hi : code[pc]? = some i) : ∃ a, begin i f = some a := by
  obtain ⟨j, target, hj, hmoves, -⟩ := step_eq_at.1 h
  obtain rfl : i = j := Option.some.inj (hi.symm.trans hj)
  cases hmoves with
  | go hbegin => exact ⟨_, hbegin⟩
  | jump hbegin => exact ⟨_, hbegin⟩
  | ask hbegin _ => exact ⟨_, hbegin⟩

/-- From frames that are the same the run goes on in the same way. -/
theorem Moves.same (h : Moves S i w f target w' g) (hi : i.localsNeeded ≤ low)
    (hf : f.Same low f') : ∃ g', Moves S i w f' target w' g' ∧ g.Same low g' := by
  cases h with
  | go h =>
    obtain ⟨_, hbegin, hsame⟩ := hf.begin hi h
    cases hsame with
    | go hg => exact ⟨_, .go hbegin, hg⟩
  | jump h =>
    obtain ⟨_, hbegin, hsame⟩ := hf.begin hi h
    cases hsame with
    | jump hg => exact ⟨_, .jump hbegin, hg⟩
  | ask h hreply =>
    obtain ⟨_, hbegin, hsame⟩ := hf.begin hi h
    cases hsame with
    | ask hg => exact ⟨_, .ask hbegin hreply, by rw [hg.stack], hg.locals⟩

end Moves

/-- A numbered instruction that a run comes to, and the frame it finds. -/
structure Visit (Ref : Type) where
  entry : Nat × Instruction
  frame : Frame Ref

/-- The same instruction finds the same frame, and asks for the same if it asks: a call has the same
receiver and the same arguments. -/
structure Visit.Same (low : Nat) (x y : Visit Ref) : Prop where
  entry : y.entry = x.entry
  frame : x.frame.Same low y.frame
  asks : ∀ q f, begin x.entry.2 x.frame = some (.ask q f) →
    ∃ g, begin y.entry.2 y.frame = some (.ask q g)

theorem Frame.Same.visit {entry : Nat × Instruction} (h : f.Same low g)
    (hi : entry.2.localsNeeded ≤ low) : Visit.Same low ⟨entry, f⟩ ⟨entry, g⟩ where
  entry := rfl
  frame := h
  asks q f' hq := by
    obtain ⟨_, hbegin, hsame⟩ := h.begin hi hq
    cases hsame
    exact ⟨_, hbegin⟩

/-- The visits of a method's own instructions. -/
def ownVisits (limit : Nat) (visits : List (Visit Ref)) : List (Visit Ref) :=
  visits.filter fun x => x.entry.1 < limit

theorem ownVisits_append_of_woven {limit : Nat} {new visits : List (Visit Ref)}
    (h : ∀ x ∈ new, limit ≤ x.entry.1) :
    ownVisits limit (new ++ visits) = ownVisits limit visits := by
  rw [ownVisits, List.filter_append, List.filter_eq_nil_iff.2, List.nil_append, ownVisits]
  intro x hx
  simpa using h x hx

theorem ownVisits_cons {limit : Nat} {x : Visit Ref} {visits : List (Visit Ref)}
    (h : x.entry.1 < limit) : ownVisits limit (x :: visits) = x :: ownVisits limit visits :=
  List.filter_cons_of_pos (by simpa using h)

/-- A run from a place, with the instructions it comes to, each of which finds what it needs. Those
with numbers below the limit are the method's own, for which one of the surroundings answers; the
others are woven in, and the other answers. -/
inductive Run (S T : Surroundings Ref) (limit : Nat) (entries : List (Nat × Instruction)) :
    Nat → S.World → T.World → Frame Ref → List (Visit Ref) → Prop where
  | stop {pc : Nat} {w : S.World} {v : T.World} {f : Frame Ref} {entry : Nat × Instruction}
      {a : Act Ref} (hentry : entries[pc]? = some entry) (hbegin : begin entry.2 f = some a) :
      Run S T limit entries pc w v f [⟨entry, f⟩]
  | own {pc pc' : Nat} {w w' : S.World} {v : T.World} {f f' : Frame Ref} {entry : Nat × Instruction}
      {visits : List (Visit Ref)} (hentry : entries[pc]? = some entry) (hlimit : entry.1 < limit)
      (hstep : S.step (entries.map Prod.snd) pc w f = some (.at pc' w' f'))
      (hrest : Run S T limit entries pc' w' v f' visits) :
      Run S T limit entries pc w v f (⟨entry, f⟩ :: visits)
  | woven {pc pc' : Nat} {w : S.World} {v v' : T.World} {f f' : Frame Ref}
      {entry : Nat × Instruction} {visits : List (Visit Ref)} (hentry : entries[pc]? = some entry)
      (hlimit : limit ≤ entry.1)
      (hstep : T.step (entries.map Prod.snd) pc v f = some (.at pc' v' f'))
      (hrest : Run S T limit entries pc' w v' f' visits) :
      Run S T limit entries pc w v f (⟨entry, f⟩ :: visits)

namespace Run

variable {limit pc n : Nat} {entries rest : List (Nat × Instruction)} {w : S.World} {v v' : T.World}
  {visits : List (Visit Ref)} {c : Code}

/-- A run goes through woven code as that code is executed. -/
theorem exists_of_exec (hdrop : entries.drop pc = c.numbered n ++ rest) (hlimit : limit ≤ n)
    (hplain : ∀ i ∈ c, i.isPlain = true) (hexec : T.exec c f v = some (g, v'))
    (hrest : Run S T limit entries (pc + c.length) w v' g visits) :
    ∃ new, Run S T limit entries pc w v f (new ++ visits) ∧ ∀ x ∈ new, limit ≤ x.entry.1 := by
  induction c generalizing pc n f v with
  | nil =>
    cases hexec
    exact ⟨[], hrest, by simp⟩
  | cons i c ih =>
    rw [Surroundings.exec_cons] at hexec
    obtain ⟨g', v₁, hi, hexec⟩ := bind_eq_some.1 hexec
    obtain ⟨hentry, hdrop⟩ := Surroundings.getElem?_of_drop hdrop
    rw [List.length_cons, Nat.add_comm c.length, ← Nat.add_assoc] at hrest
    obtain ⟨new, hrun, hnew⟩ := ih hdrop (hlimit.trans (Nat.le_succ n))
      (fun j hj => hplain j (List.mem_cons_of_mem _ hj)) hexec hrest
    have hstep : T.step (entries.map Prod.snd) pc v f = some (.at (pc + 1) v₁ g') := by
      rw [Surroundings.step_of_isPlain (hplain i List.mem_cons_self), hi]
      · rfl
      · rw [List.getElem?_map, hentry]
        rfl
    exact ⟨⟨(n, i), f⟩ :: new, .woven hentry hlimit hstep hrun,
      List.forall_mem_cons.2 ⟨hlimit, hnew⟩⟩

end Run

end CodeWeaving.Machine
