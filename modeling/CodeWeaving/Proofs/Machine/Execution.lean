import CodeWeaving.Proofs.Depth.Straight
import CodeWeaving.Proofs.Machine.Steps

/-! Execution of straight code, and what it says about runs through a stretch of a method. -/
namespace CodeWeaving.Machine

section Yields

variable {σ α β : Type} {x : StateT σ Option α} {P : α → Prop}

theorem bind_eq_some {f : α → StateT σ Option β} {w w' : σ} {b : β} :
    (x >>= f) w = some (b, w') ↔ ∃ a v, x w = some (a, v) ∧ f a v = some (b, w') := by
  change (x w).bind _ = _ ↔ _
  simp only [Option.bind_eq_some_iff, Prod.exists]

theorem bind_pure_eq_some {f : α → β} {w w' : σ} {b : β} :
    (x >>= fun a => pure (f a)) w = some (b, w') ↔ ∃ a, x w = some (a, w') ∧ f a = b := by
  simp only [bind_eq_some]
  constructor
  · rintro ⟨a, v, ha, hb⟩
    cases hb
    exact ⟨a, ha, rfl⟩
  · rintro ⟨a, ha, rfl⟩
    exact ⟨a, w', ha, rfl⟩

/-- Every result of the computation has the property. -/
def Yields (x : StateT σ Option α) (P : α → Prop) : Prop := ∀ w a w', x w = some (a, w') → P a

theorem Yields.bind_congr (h : Yields x P) {f g : α → StateT σ Option β}
    (hfg : ∀ a, P a → f a = g a) : x >>= f = x >>= g := by
  funext w
  change (x w).bind (fun r => f r.1 r.2) = (x w).bind fun r => g r.1 r.2
  cases hx : x w with
  | none => rfl
  | some r => exact congrFun (hfg r.1 (h w r.1 r.2 hx)) r.2

theorem Yields.pure {a : α} (h : P a) : Yields (σ := σ) (Pure.pure a) P := by
  rintro w b w' hb
  cases hb
  exact h

theorem Yields.bind {f : α → StateT σ Option β} {Q : β → Prop} (h : Yields x P)
    (hf : ∀ a, P a → Yields (f a) Q) : Yields (x >>= f) Q := by
  intro w b w' hb
  obtain ⟨a, v, ha, hb⟩ := bind_eq_some.1 hb
  exact hf a (h w a v ha) v b w' hb

theorem Yields.trivial : Yields x fun _ => True := fun _ _ _ _ => True.intro

end Yields

/-- The value that slots hold between them. -/
def value? {Ref : Type} : List (Slot Ref) → Option (Value Ref)
  | [.value v] | [.upper, .value v] => some v
  | _ => none

theorem value?_slots {Ref : Type} (v : Value Ref) : value? v.slots = some v := by
  cases v <;> rfl

theorem fits_pushed {Ref : Type} (v : Option (Value Ref)) :
    Fits (v.map Value.kind) (pushed v) := by
  cases v with
  | none => rfl
  | some v => exact ⟨v, rfl, rfl⟩

theorem Fits.pushed_value? {Ref : Type} {k : Option ValueKind} {slots : List (Slot Ref)}
    (h : Fits k slots) : pushed (value? slots) = slots ∧ (value? slots).map Value.kind = k := by
  cases k with
  | none =>
    obtain rfl : slots = [] := h
    exact ⟨rfl, rfl⟩
  | some k =>
    obtain ⟨v, rfl, rfl⟩ := h
    rw [value?_slots]
    exact ⟨rfl, rfl⟩

namespace Surroundings

variable {Ref : Type} {S : Surroundings Ref} {q : Request Ref} {k : ValueKind}

/-- The answer to a request, as a value. -/
def answerValue (S : Surroundings Ref) (q : Request Ref) : StateT S.World Option (Value Ref) := do
  let reply ← S.answer q
  match value? reply with
  | some v => pure v
  | none => failure

theorem answer_eq_map (hq : q.Admits = Fits (some k)) :
    S.answer q = Value.slots <$> S.answerValue q := by
  funext w
  change S.answer q w = ((S.answer q w).bind _).bind _
  cases hanswer : S.answer q w with
  | none => rfl
  | some r =>
    obtain ⟨reply, w'⟩ := r
    obtain ⟨v, -, rfl⟩ : Fits (some k) reply := hq ▸ S.admits hanswer
    cases v <;> rfl

theorem yields_answerValue (hq : q.Admits = Fits (some k)) :
    Yields (S.answerValue q) fun v => v.kind = k := by
  intro w v w' h
  have hanswer : S.answer q w = some (v.slots, w') := by
    rw [answer_eq_map hq]
    change (S.answerValue q w).bind _ = _
    rw [h]
    rfl
  obtain ⟨v', hk, hv⟩ : Fits (some k) v.slots := hq ▸ S.admits hanswer
  have := congrArg value? hv
  rw [value?_slots, value?_slots] at this
  cases this
  exact hk

theorem answer_eq_nil (hq : q.Admits = Fits none) {α : Type}
    (f : List (Slot Ref) → StateT S.World Option α) :
    S.answer q >>= f = S.answer q >>= fun _ => f [] :=
  Yields.bind_congr (P := Fits none) (fun _ _ _ h => hq ▸ S.admits h) fun reply hreply => by
    rw [show reply = [] from hreply]

variable {code c post : Code} {i : Instruction} {f g : Frame Ref} {stack rest : List (Slot Ref)}
  {l : Locals Ref} {v : Value Ref} {start stop : Nat}

theorem exec_cons : S.exec (i :: code) f = S.execute f i >>= S.exec code := rfl

theorem exec_append : S.exec (c ++ code) f = S.exec c f >>= S.exec code := List.foldlM_append

theorem exec_append_of_some {w w' : S.World} (h : S.exec c f w = some (g, w')) :
    S.exec (c ++ code) f w = S.exec code g w' := by
  rw [exec_append]
  change (S.exec c f w).bind _ = _
  rw [h]
  rfl

theorem exec_singleton : S.exec [i] f = S.execute f i := by
  rw [exec_cons]
  exact bind_pure _

theorem execute_of_go (h : begin i f = some (.go g)) : S.execute f i = pure g := by
  rw [execute, h]

theorem execute_of_ask (h : begin i f = some (.ask q g)) : S.execute f i =
    (do
      let reply ← S.answer q
      pure { g with stack := reply ++ g.stack }) := by
  rw [execute, h]

/-- An instruction that asks for a value has it on top afterwards. -/
theorem execute_of_ask_value (h : begin i f = some (.ask q g)) (hq : q.Admits = Fits (some k)) :
    S.execute f i =
      (do
        let v ← S.answerValue q
        pure (g.push v)) := by
  rw [execute_of_ask h, answer_eq_map hq, bind_map_left]
  rfl

theorem execute_of_ask_nothing (h : begin i f = some (.ask q g)) (hq : q.Admits = Fits none) :
    S.execute f i =
      (do
        let _ ← S.answer q
        pure g) := by
  rw [execute_of_ask h, answer_eq_nil hq]
  rfl

theorem execute_loadLocal {slot : UInt16} (h : l.Holds slot.toNat v) :
    S.execute ⟨stack, l⟩ (.loadLocal slot v.kind) = pure ⟨v.slots ++ stack, l⟩ := by
  refine execute_of_go ?_
  simp [begin, Locals.load_eq_some.2 ⟨rfl, h⟩, Frame.push]

theorem execute_storeLocal {slot : UInt16} :
    S.execute ⟨v.slots ++ stack, l⟩ (.storeLocal slot v.kind) =
      pure ⟨stack, l.store slot.toNat v⟩ := by
  refine execute_of_go ?_
  simp [begin, take_eq_some.2 ⟨rfl, rfl⟩]

theorem execute_drop : S.execute ⟨v.slots ++ stack, l⟩ (.drop v.kind) = pure ⟨stack, l⟩ := by
  cases v <;> rfl

section Calls

variable {kind : InvokeKind} {m : MethodRef} {operands : List (Value Ref)}

/-- A call asks about the operands on top of the stack. -/
theorem begin_invoke_eq_some {a : Act Ref} : begin (.invoke kind m) f = some a ↔
    ∃ operands rest, operands.map Value.kind = callKinds kind m ∧
      f.stack = stacked operands ++ rest ∧
      .ask (.call kind m operands) { f with stack := rest } = a := by
  simp only [begin, Option.bind_eq_bind, Option.bind_eq_some_iff, Prod.exists, takeAll_eq_some,
    Option.pure_def, Option.some.injEq, and_assoc]

theorem begin_invoke (h : operands.map Value.kind = callKinds kind m) :
    begin (.invoke kind m) ⟨stacked operands ++ stack, l⟩ =
      some (.ask (.call kind m operands) ⟨stack, l⟩) :=
  begin_invoke_eq_some.2 ⟨operands, stack, h, rfl, rfl⟩

/-- A field access asks about the operands on top of the stack. -/
theorem begin_field_eq_some {access : FieldAccess} {field : FieldRef} {a : Act Ref} :
    begin (.field access field) f = some a ↔
    ∃ operands rest, operands.map Value.kind = accessKinds access field ∧
      f.stack = stacked operands ++ rest ∧
      .ask (.access access field operands) { f with stack := rest } = a := by
  simp only [begin, Option.bind_eq_bind, Option.bind_eq_some_iff, Prod.exists, takeAll_eq_some,
    Option.pure_def, Option.some.injEq, and_assoc]

/-- A call, for the value that it returns if it does. -/
def call (S : Surroundings Ref) (kind : InvokeKind) (m : MethodRef) (operands : List (Value Ref)) :
    StateT S.World Option (Option (Value Ref)) :=
  value? <$> S.answer (.call kind m operands)

theorem yields_call : Yields (S.call kind m operands) fun v =>
    v.map Value.kind = m.signature.returnKind := by
  intro w v w' h
  obtain ⟨⟨reply, w''⟩, hreply, h⟩ := Option.bind_eq_some_iff.1
    (show (S.answer (.call kind m operands) w).bind _ = some (v, w') from h)
  cases h
  exact (Fits.pushed_value? (S.admits hreply)).2

theorem execute_invoke (h : operands.map Value.kind = callKinds kind m) :
    S.execute ⟨stacked operands ++ stack, l⟩ (.invoke kind m) =
      (do
        let v ← S.call kind m operands
        pure ⟨pushed v ++ stack, l⟩) := by
  rw [execute_of_ask (begin_invoke h), call, bind_map_left]
  refine Yields.bind_congr (P := fun reply => pushed (value? reply) = reply) ?_
    fun reply hreply => ?_
  · exact fun _ _ _ hreply => (Fits.pushed_value? (S.admits hreply)).1
  · rw [hreply]

theorem execute_invoke_value (h : operands.map Value.kind = callKinds kind m)
    (hm : m.signature.returnKind = some k) :
    S.execute ⟨stacked operands ++ stack, l⟩ (.invoke kind m) =
      (do
        let v ← S.answerValue (.call kind m operands)
        pure ⟨v.slots ++ stack, l⟩) :=
  execute_of_ask_value (k := k) (begin_invoke h) (by rw [Request.Admits, hm])

theorem execute_invoke_nothing (h : operands.map Value.kind = callKinds kind m)
    (hm : m.signature.returnKind = none) :
    S.execute ⟨stacked operands ++ stack, l⟩ (.invoke kind m) =
      (do
        let _ ← S.answer (.call kind m operands)
        pure ⟨stack, l⟩) :=
  execute_of_ask_nothing (begin_invoke h) (by rw [Request.Admits, hm])

theorem yields_callValue (hm : m.signature.returnKind = some k) :
    Yields (S.answerValue (.call kind m operands)) fun v => v.kind = k :=
  yields_answerValue (by rw [Request.Admits, hm])

end Calls

theorem execute_checkCast {t : RefType} (h : v.kind = .reference) :
    S.execute ⟨v.slots ++ stack, l⟩ (.checkCast t) =
      (do
        let v' ← S.answerValue (.cast t v)
        pure ⟨v'.slots ++ stack, l⟩) := by
  refine execute_of_ask_value (k := .reference) (g := ⟨stack, l⟩) ?_ rfl
  simp [begin, take_eq_some.2 ⟨h, rfl⟩]

theorem pushConstant_goes (f : Frame Ref) (c : Constant) :
    (∃ g, f.pushConstant c = .go g) ∨ ∃ q g, f.pushConstant c = .ask q g := by
  cases c <;> simp [Frame.pushConstant]

/-- A plain instruction goes on to the next one, if it gets anywhere. -/
theorem begin_of_isPlain {a : Act Ref} (hi : i.isPlain = true) (h : begin i f = some a) :
    (∃ g, a = .go g) ∨ ∃ q g, a = .ask q g := by
  have hplain := Instruction.isPlain_iff.1 hi
  cases i with
  | pushConstant c =>
    cases h
    exact pushConstant_goes f c
  | raw r =>
    simp only [begin, beginRaw] at h
    split at h
    · simp only [Option.bind_eq_bind, Option.bind_eq_some_iff] at h
      obtain ⟨slot, -, amount, -, v, -, h⟩ := h
      split at h
      · cases h
        exact .inl ⟨_, rfl⟩
      · cases h
    · split at h
      · cases h
        exact pushConstant_goes f _
      · split at h
        · simp only [Option.bind_eq_bind, Option.bind_eq_some_iff] at h
          obtain ⟨v, -, h⟩ := h
          cases h
          exact .inl ⟨_, rfl⟩
        · split at h
          · split at h
            · rename_i hthrow
              simp [Instruction.isTerminal, hthrow] at hplain
            · cases h
              exact .inr ⟨_, _, rfl⟩
          · cases h
  | branch condition l => simp [Instruction.label?] at hplain
  | label l => simp [Instruction.label?] at hplain
  | ret k => simp [Instruction.isTerminal] at hplain
  | dup | dupX1 | dupX2 | swap | pop | pop2 =>
    obtain ⟨_ | ⟨x, _ | ⟨y, _ | ⟨z, stack⟩⟩⟩, l⟩ := f <;> cases h <;> exact .inl ⟨_, rfl⟩
  | loadLocal | storeLocal | invoke | field | new | checkCast =>
    simp [begin, Option.bind_eq_some_iff] at h
    grind

theorem step_of_isPlain {pc : Nat} {w : S.World} (hi : i.isPlain = true)
    (hpc : code[pc]? = some i) :
    S.step code pc w f = (S.execute f i w).map fun (g, w') => .at (pc + 1) w' g := by
  rw [step, hpc]
  cases hbegin : begin i f with
  | none =>
    rw [execute, hbegin]
    simp only [Option.bind_eq_bind, Option.bind_some, hbegin]
    rfl
  | some a =>
    simp only [Option.bind_eq_bind, Option.bind_some, hbegin]
    rcases begin_of_isPlain hi hbegin with ⟨g, rfl⟩ | ⟨q, g, rfl⟩
    · rw [execute_of_go hbegin]
      rfl
    · rw [execute_of_ask hbegin]
      change (S.answer q w).map _ = ((S.answer q w).bind _).map _
      cases S.answer q w <;> rfl

/-- A run from a place goes through a stretch of the method until it is out of it: behind it, or at
an end of the method. -/
inductive Leaves (S : Surroundings Ref) (code : Code) (start stop : Nat) :
    S.Config → S.Config → Prop where
  | outside {pc : Nat} {w : S.World} {f : Frame Ref} (h : pc < start ∨ stop ≤ pc) :
      Leaves S code start stop (.at pc w f) (.at pc w f)
  | returned {v : Option (Value Ref)} {w : S.World} :
      Leaves S code start stop (.returned v w) (.returned v w)
  | raised {w : S.World} : Leaves S code start stop (.raised w) (.raised w)
  | step {pc : Nat} {w : S.World} {f : Frame Ref} {x y : S.Config} (hstart : start ≤ pc)
      (hstop : pc < stop) (hstep : S.step code pc w f = some x) (h : Leaves S code start stop x y) :
      Leaves S code start stop (.at pc w f) y

theorem leaves_inside {pc : Nat} {w : S.World} {y : S.Config} (hstart : start ≤ pc)
    (hstop : pc < stop) :
    Leaves S code start stop (.at pc w f) y ↔
      ∃ x, S.step code pc w f = some x ∧ Leaves S code start stop x y := by
  constructor
  · intro h
    cases h with
    | outside h => omega
    | step _ _ hstep h => exact ⟨_, hstep, h⟩
  · rintro ⟨x, hstep, h⟩
    exact .step hstart hstop hstep h

theorem leaves_outside {pc : Nat} {w : S.World} {y : S.Config} (h : pc < start ∨ stop ≤ pc) :
    Leaves S code start stop (.at pc w f) y ↔ y = .at pc w f := by
  constructor
  · intro hleaves
    cases hleaves with
    | outside => rfl
    | step => omega
  · rintro rfl
    exact .outside h

theorem getElem?_of_drop {α : Type} {xs post : List α} {x : α} {pc : Nat}
    (h : xs.drop pc = x :: post) : xs[pc]? = some x ∧ xs.drop (pc + 1) = post := by
  constructor
  · have := congrArg (fun rest => rest[0]?) h
    simpa using this
  · rw [← List.drop_drop, h]
    rfl

theorem drop_of_append {α : Type} {xs ys post : List α} {pc : Nat} (h : xs.drop pc = ys ++ post) :
    xs.drop (pc + ys.length) = post := by
  rw [← List.drop_drop, h, List.drop_left]

section Stretches

variable {pc : Nat} {w : S.World} {y : S.Config} {label : Label}

/-- A run through a stretch of plain code is the execution of that code. -/
theorem leaves_exec (h : code.drop pc = c ++ post) (hplain : ∀ i ∈ c, i.isPlain = true)
    (hstart : start ≤ pc) (hstop : pc + c.length ≤ stop) :
    Leaves S code start stop (.at pc w f) y ↔
      ∃ g w', S.exec c f w = some (g, w') ∧
        Leaves S code start stop (.at (pc + c.length) w' g) y := by
  induction c generalizing pc f w with
  | nil =>
    constructor
    · intro h
      exact ⟨f, w, rfl, h⟩
    · rintro ⟨g, w', hexec, h⟩
      cases hexec
      exact h
  | cons i c ih =>
    obtain ⟨hi, hrest⟩ := getElem?_of_drop h
    rw [List.length_cons] at hstop
    have ih' (f : Frame Ref) (w : S.World) := ih (f := f) (w := w) hrest
      (fun j hj => hplain j (List.mem_cons_of_mem _ hj)) (by omega) (by omega)
    rw [leaves_inside hstart (by omega), step_of_isPlain (hplain i List.mem_cons_self) hi,
      exec_cons, List.length_cons, Nat.add_comm c.length, ← Nat.add_assoc]
    simp only [bind_eq_some, Option.map_eq_some_iff, Prod.exists]
    constructor
    · rintro ⟨x, ⟨g, w', hg, rfl⟩, h⟩
      obtain ⟨g', w'', hexec, h⟩ := (ih' g w').1 h
      exact ⟨g', w'', ⟨g, w', hg, hexec⟩, h⟩
    · rintro ⟨g', w'', ⟨g, w', hg, hexec⟩, h⟩
      exact ⟨_, ⟨g, w', hg, rfl⟩, (ih' g w').2 ⟨g', w'', hexec, h⟩⟩

/-- A run from a place comes out of a stretch as a computation says. -/
def ComesTo {α : Type} (S : Surroundings Ref) (code : Code) (start stop pc : Nat) (f : Frame Ref)
    (x : StateT S.World Option α) (out : α → S.World → S.Config) : Prop :=
  ∀ w y, Leaves S code start stop (.at pc w f) y ↔ ∃ a w', x w = some (a, w') ∧ y = out a w'

variable {α β : Type} {x : StateT S.World Option α} {out : α → S.World → S.Config} {a : α}

/-- Where the computation has a result, the run comes out with that. -/
theorem ComesTo.leaves_iff {w w' : S.World} (h : ComesTo S code start stop pc f x out)
    (hx : x w = some (a, w')) : Leaves S code start stop (.at pc w f) y ↔ y = out a w' := by
  rw [h w y, hx]
  constructor
  · rintro ⟨b, v, hb, rfl⟩
    cases hb
    rfl
  · exact fun hy => ⟨a, w', rfl, hy⟩

theorem comesTo_pure (h : pc < start ∨ stop ≤ pc) (hout : ∀ w, out a w = .at pc w f) :
    ComesTo S code start stop pc f (pure a) out := by
  intro w y
  rw [leaves_outside h, ← hout w]
  constructor
  · rintro rfl
    exact ⟨a, w, rfl, rfl⟩
  · rintro ⟨a, w', ha, rfl⟩
    cases ha
    rfl

theorem comesTo_map {h : α → β} {out : β → S.World → S.Config}
    (hx : ComesTo S code start stop pc f x fun a => out (h a)) :
    ComesTo S code start stop pc f (h <$> x) out := by
  intro w y
  rw [map_eq_pure_bind, hx w y]
  simp only [bind_pure_eq_some]
  constructor
  · rintro ⟨a, w', ha, rfl⟩
    exact ⟨h a, w', ⟨a, ha, rfl⟩, rfl⟩
  · rintro ⟨_, w', ⟨a, ha, rfl⟩, rfl⟩
    exact ⟨a, w', ha, rfl⟩

/-- First comes a stretch of plain code, then what comes after it. -/
theorem comesTo_exec {P : α → Prop} {next : α → Frame Ref} {rest : α → StateT S.World Option β}
    {out : β → S.World → S.Config} (hdrop : code.drop pc = c ++ post)
    (hplain : ∀ i ∈ c, i.isPlain = true) (hstart : start ≤ pc) (hstop : pc + c.length ≤ stop)
    (hexec : S.exec c f = x >>= fun a => pure (next a)) (hx : Yields x P)
    (h : ∀ a, P a → ComesTo S code start stop (pc + c.length) (next a) (rest a) out) :
    ComesTo S code start stop pc f (x >>= rest) out := by
  intro w y
  rw [leaves_exec hdrop hplain hstart hstop, hexec]
  constructor
  · rintro ⟨g, w₁, hg, hleaves⟩
    obtain ⟨a, ha, rfl⟩ := bind_pure_eq_some.1 hg
    obtain ⟨b, w', hb, rfl⟩ := (h a (hx _ _ _ ha) w₁ y).1 hleaves
    exact ⟨b, w', bind_eq_some.2 ⟨a, w₁, ha, hb⟩, rfl⟩
  · rintro ⟨b, w', hb, rfl⟩
    obtain ⟨a, w₁, ha, hb⟩ := bind_eq_some.1 hb
    exact ⟨next a, w₁, bind_pure_eq_some.2 ⟨a, ha, rfl⟩,
      (h a (hx _ _ _ ha) w₁ _).2 ⟨b, w', hb, rfl⟩⟩

/-- Plain code from start to stop. -/
theorem comesTo_plain {next : α → Frame Ref} (hdrop : code.drop pc = c ++ post)
    (hplain : ∀ i ∈ c, i.isPlain = true) (hexec : S.exec c f = x >>= fun a => pure (next a))
    (hout : ∀ a w, out a w = .at (pc + c.length) w (next a)) :
    ComesTo S code pc (pc + c.length) pc f x out := by
  rw [← bind_pure x]
  exact comesTo_exec hdrop hplain (Nat.le_refl _) (Nat.le_refl _) hexec .trivial fun a _ =>
    comesTo_pure (.inr (Nat.le_refl _)) (hout a)

theorem comesTo_go (hdrop : code.drop pc = i :: post) (hi : begin i f = some (.go g))
    (hstart : start ≤ pc) (hstop : pc < stop)
    (h : ComesTo S code start stop (pc + 1) g x out) : ComesTo S code start stop pc f x out := by
  intro w y
  have hstep : S.step code pc w f = some (.at (pc + 1) w g) := by
    rw [step, (getElem?_of_drop hdrop).1]
    simp [hi]
  simp only [leaves_inside hstart hstop, hstep, Option.some.injEq, exists_eq_left', h w y]

theorem comesTo_jump {p : Nat} (hdrop : code.drop pc = i :: post)
    (hi : begin i f = some (.jump label g)) (hp : placeOf code label = some p)
    (hstart : start ≤ pc) (hstop : pc < stop)
    (h : ComesTo S code start stop p g x out) : ComesTo S code start stop pc f x out := by
  intro w y
  have hstep : S.step code pc w f = some (.at p w g) := by
    rw [step, (getElem?_of_drop hdrop).1]
    simp [hi, hp]
  simp only [leaves_inside hstart hstop, hstep, Option.some.injEq, exists_eq_left', h w y]

theorem comesTo_leave {result : Option (Value Ref)} (hdrop : code.drop pc = i :: post)
    (hi : begin i f = some (.leave result)) (hstart : start ≤ pc) (hstop : pc < stop)
    (hout : ∀ w, out a w = .returned result w) :
    ComesTo S code start stop pc f (pure a) out := by
  intro w y
  have hstep : S.step code pc w f = some (.returned result w) := by
    rw [step, (getElem?_of_drop hdrop).1]
    simp [hi]
  simp only [leaves_inside hstart hstop, hstep, Option.some.injEq, exists_eq_left']
  constructor
  · intro h
    cases h
    exact ⟨a, w, rfl, (hout w).symm⟩
  · rintro ⟨a, w', ha, rfl⟩
    cases ha
    rw [hout w]
    exact .returned

theorem begin_ret {v : Option (Value Ref)} {k : Option ValueKind} (hv : v.map Value.kind = k) :
    begin (.ret k) ⟨pushed v ++ stack, l⟩ = some (.leave v) := by
  cases v with
  | none =>
    subst hv
    rfl
  | some v =>
    subst hv
    simp [begin, pushed, take_eq_some.2 ⟨rfl, rfl⟩]

/-- A branch goes to the label of its name, if there is no second one. -/
theorem placeOf_eq (hplaced : code.placed.Nodup) (h : code[pc]? = some (.label label)) :
    placeOf code label = some pc := by
  obtain ⟨hlt, hget⟩ := List.getElem?_eq_some_iff.1 h
  refine List.findIdx?_eq_some_iff_getElem.2 ⟨hlt, by simpa using hget, fun j hj hlabel => ?_⟩
  rw [← List.take_append_drop pc code, Code.placed_append] at hplaced
  refine (List.nodup_append.1 hplaced).2.2 label ?_ label ?_ rfl
  · rw [Code.mem_placed, ← of_decide_eq_true hlabel]
    exact List.mem_take_iff_getElem.2 ⟨j, by omega, rfl⟩
  · rw [Code.mem_placed, ← hget, List.drop_eq_getElem_cons hlt]
    exact List.mem_cons_self

end Stretches

end Surroundings

end CodeWeaving.Machine
