import CodeWeaving.Proofs.Weaving.RegisteredWeaving

/-! Weaving turn by turn: what the class is when a directive comes to be woven. -/
namespace CodeWeaving

variable {settings : Settings} {handlers : HandlerProvider} {c : ClassDefinition}
  {ds : List Directive} {o : Outcome} {k : Nat}

namespace Weaver

/-- The class as the directive finds it that is woven after `k` others. -/
def classAt (settings : Settings) (handlers : HandlerProvider) (c : ClassDefinition)
    (ds : List Directive) (k : Nat) : ClassDefinition :=
  if c.woven then c else (weaveInOrder settings handlers c ((weavingOrder ds).take k)).cls

theorem map_placed_weaveInOrder {l : List (Directive × Nat)} :
    (weaveInOrder settings handlers c l).outcomes.map (fun o => (o.directive, o.index)) = l := by
  induction l generalizing c with
  | nil => rfl
  | cons x l ih =>
    obtain ⟨d, index⟩ := x
    rw [outcomes_weaveInOrder_cons, List.map_cons, directive_weaveOne, index_weaveOne, ih]

/-- Directives woven one after another each have the class that those before have left. -/
theorem weaveInOrder_turn {l : List (Directive × Nat)}
    (h : (weaveInOrder settings handlers c l).outcomes[k]? = some o) :
    (weaveInOrder settings handlers c (l.take (k + 1))).cls =
        (weaveOne settings handlers (weaveInOrder settings handlers c (l.take k)).cls o.index
          o.directive).1 ∧
      o = (weaveOne settings handlers (weaveInOrder settings handlers c (l.take k)).cls o.index
        o.directive).2.1 := by
  induction l generalizing c k with
  | nil => cases h
  | cons x l ih =>
    obtain ⟨d, index⟩ := x
    rw [outcomes_weaveInOrder_cons] at h
    cases k with
    | zero =>
      cases h
      rw [directive_weaveOne, index_weaveOne]
      exact ⟨rfl, rfl⟩
    | succ k => exact ih h

@[simp] theorem classAt_zero : classAt settings handlers c ds 0 = c := by
  simp [classAt, weaveInOrder]

theorem classAt_of_woven (hc : c.woven = true) : classAt settings handlers c ds k = c := if_pos hc

theorem classAt_of_unwoven (hc : c.woven = false) : classAt settings handlers c ds k =
    (weaveInOrder settings handlers c ((weavingOrder ds).take k)).cls := by
  simp [classAt, hc]

/-- One turn of an unwoven class: the directive is woven into what it finds. -/
theorem turn_of_unwoven (hc : c.woven = false)
    (h : (weave settings handlers c ds).outcomes[k]? = some o) :
    classAt settings handlers c ds (k + 1) =
        (weaveOne settings handlers (classAt settings handlers c ds k) o.index o.directive).1 ∧
      o =
        (weaveOne settings handlers (classAt settings handlers c ds k) o.index
          o.directive).2.1 := by
  rw [(weave_of_unwoven hc).2] at h
  rw [classAt_of_unwoven hc, classAt_of_unwoven hc]
  exact weaveInOrder_turn h

/-- Weaving is over after the last turn. -/
theorem cls_weave : (weave settings handlers c ds).cls =
    (classAt settings handlers c ds (weave settings handlers c ds).outcomes.length).markWoven := by
  cases hc : c.woven with
  | true =>
    have hsame : (weave settings handlers c ds).cls = c := by simp [weave, hc]
    rw [classAt_of_woven hc, hsame]
    cases c
    cases hc
    rfl
  | false =>
    have hlength : (weaveInOrder settings handlers c (weavingOrder ds)).outcomes.length =
        (weavingOrder ds).length := by
      rw [← List.length_map, map_placed_weaveInOrder]
    rw [(weave_of_unwoven hc).1, (weave_of_unwoven hc).2, classAt_of_unwoven hc, hlength,
      List.take_length]

/-- What every turn keeps is kept from first to last. -/
theorem classAt_induction {P : ClassDefinition → Prop} (hc : P c)
    (hstep : ∀ k o, (weave settings handlers c ds).outcomes[k]? = some o →
      P (classAt settings handlers c ds k) → P (classAt settings handlers c ds (k + 1))) :
    ∀ k ≤ (weave settings handlers c ds).outcomes.length, P (classAt settings handlers c ds k) := by
  intro k hk
  induction k with
  | zero => rwa [classAt_zero]
  | succ k ih => exact hstep k _ (List.getElem?_eq_getElem hk) (ih (Nat.le_of_lt hk))

end Weaver

end CodeWeaving
