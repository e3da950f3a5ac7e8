import CodeWeaving.Proofs.Machine.Visits
import CodeWeaving.Proofs.Weaving.Layout

/-! Code that is woven in before instructions and that these do not notice: the run of the method is
the same with it as without it. -/
namespace CodeWeaving

open Code Machine

/-- An edit puts code before an instruction, not before a label, that comes out at the instruction
as it went in, if the instruction finds its operands there and what it finds is as it should be. -/
structure Edit.Unnoticed {Ref : Type} (T : Surroundings Ref) (low : Nat)
    (P : Nat → Frame Ref → Prop) (code : Code) (e : Edit) : Prop where
  before : ∃ anchor new, e = .insertBefore anchor new
  plain : ∀ i ∈ e.code, i.isPlain = true
  label : ∀ l, code[e.anchor.index]? ≠ some (.label l)
  quiet : ∀ i f a, code[e.anchor.index]? = some i → begin i f = some a → P e.anchor.index f →
    ∀ v g, f.Same low g → ∃ v' g', T.exec e.code g v = some (g', v') ∧ f.Same low g'

namespace Plan

variable {Ref : Type} {S T : Surroundings Ref} {P : Nat → Frame Ref → Prop} {low p : Nat}
  {code : Code} {es : List Edit} {first : Nat → Nat} {i : Instruction} {f f' : Frame Ref}
  {a : Act Ref} {l : Label} {w : S.World} {v : T.World} {visits : List (Visit Ref)}

/-- Where an instruction's block begins in the woven code. -/
def home (es : List Edit) (first : Nat → Nat) (code : Code) (p : Nat) : Nat :=
  (layout es first 0 (code.take p)).length

theorem drop_home (es : List Edit) (first : Nat → Nat) (hi : code[p]? = some i) :
    (layout es first 0 code).drop (home es first code p) =
      block es first (p, i) ++ layout es first (p + 1) (code.drop (p + 1)) := by
  rw [layout_split hi, home, List.drop_left]

theorem home_succ (es : List Edit) (first : Nat → Nat) (hi : code[p]? = some i) :
    home es first code (p + 1) = home es first code p + (block es first (p, i)).length := by
  have hlen : (code.take p).length = p := by
    rw [List.length_take]
    have := (List.getElem?_eq_some_iff.1 hi).1
    omega
  rw [home, home, List.take_add_one, hi, Option.toList_some, layout_append, hlen, Nat.zero_add,
    List.length_append, layout_cons]
  simp [layout, numbered]

section

variable (h : ∀ e ∈ es, e.Unnoticed T low P code)

include h

theorem block_cases (first : Nat → Nat) (p : Nat) (i : Instruction) :
    block es first (p, i) = [(p, i)] ∨
      ∃ e ∈ es, e.anchor.index = p ∧
        block es first (p, i) = e.code.numbered (first p) ++ [(p, i)] := by
  unfold block
  split
  · rename_i e hfind
    have he := List.mem_of_find?_eq_some hfind
    have hindex : e.anchor.index = p := by simpa using List.find?_some hfind
    obtain ⟨anchor, new, rfl⟩ := (h e he).before
    obtain rfl : anchor.index = p := hindex
    exact .inr ⟨_, he, rfl, rfl⟩
  · exact .inl rfl

/-- A label is where it was. -/
theorem placeOf_home (hplaced : (Code.placed ((layout es first 0 code).map Prod.snd)).Nodup)
    (hl : Surroundings.placeOf code l = some p) :
    Surroundings.placeOf ((layout es first 0 code).map Prod.snd) l =
      some (home es first code p) := by
  have hi : code[p]? = some (.label l) := by
    obtain ⟨hlt, hget, -⟩ := List.findIdx?_eq_some_iff_getElem.1 hl
    rw [List.getElem?_eq_getElem hlt, of_decide_eq_true hget]
  refine Surroundings.placeOf_eq hplaced ?_
  have hdrop := drop_home es first hi
  rcases block_cases h first p (.label l) with hblock | ⟨e, he, rfl, -⟩
  · rw [hblock] at hdrop
    rw [List.getElem?_map, (Surroundings.getElem?_of_drop hdrop).1]
    rfl
  · exact absurd hi ((h e he).label l)

/-- Whoever comes to the block of an instruction comes to the instruction, in the same frame. -/
theorem exists_arrival (hfirst : ∀ k, code.length ≤ first k)
    (hi : code[p]? = some i) (ha : begin i f = some a) (hP : P p f) (hf : f.Same low f') :
    ∃ q v' g, (layout es first 0 code)[q]? = some (p, i) ∧ f.Same low g ∧
      home es first code (p + 1) = q + 1 ∧
      ∀ w visits, Run S T code.length (layout es first 0 code) q w v' g visits →
        ∃ new, Run S T code.length (layout es first 0 code) (home es first code p) w v f'
          (new ++ visits) ∧ ∀ x ∈ new, code.length ≤ x.entry.1 := by
  have hdrop := drop_home es first hi
  have hhome := home_succ es first hi
  rcases block_cases h first p i with hblock | ⟨e, he, rfl, hblock⟩
  · rw [hblock] at hdrop hhome
    exact ⟨_, v, f', (Surroundings.getElem?_of_drop hdrop).1, hf, hhome,
      fun w visits hrun => ⟨[], hrun, by simp⟩⟩
  · obtain ⟨v', g, hexec, hg⟩ := (h e he).quiet i f a hi ha hP v f' hf
    rw [hblock, List.append_assoc] at hdrop
    rw [hblock, List.length_append, length_numbered, ← Nat.add_assoc] at hhome
    have hthere := Surroundings.drop_of_append hdrop
    rw [length_numbered] at hthere
    exact ⟨_, v', g, (Surroundings.getElem?_of_drop hthere).1, hg, hhome, fun w visits hrun =>
      Run.exists_of_exec hdrop (hfirst _) (h e he).plain hexec hrun⟩

/-- A step of an instruction leads to the block of the one that comes next. -/
theorem exists_step_home (hplaced : (Code.placed ((layout es first 0 code).map Prod.snd)).Nodup)
    (hneeded : ∀ i ∈ code, i.localsNeeded ≤ low) {p' q : Nat} {w' : S.World} {g : Frame Ref}
    (hstep : S.step code p w f = some (.at p' w' f')) (hi : code[p]? = some i)
    (hq : (layout es first 0 code)[q]? = some (p, i)) (hhome : home es first code (p + 1) = q + 1)
    (hg : f.Same low g) :
    ∃ g', S.step ((layout es first 0 code).map Prod.snd) q w g =
        some (.at (home es first code p') w' g') ∧ f'.Same low g' := by
  obtain ⟨j, target, hj, hmoves, hp'⟩ := step_eq_at.1 hstep
  obtain rfl : i = j := Option.some.inj (hi.symm.trans hj)
  obtain ⟨g', hmoves', hg'⟩ := hmoves.same (hneeded i (List.mem_of_getElem? hi)) hg
  refine ⟨g', step_eq_at.2 ⟨i, target, by rw [List.getElem?_map, hq]; rfl, hmoves', ?_⟩, hg'⟩
  cases target with
  | none =>
    subst hp'
    exact hhome
  | some l => exact placeOf_home h hplaced hp'

/-- The same own instructions find the same frames in the woven code. -/
theorem exists_run_unnoticed (hfirst : ∀ k, code.length ≤ first k)
    (hplaced : (Code.placed ((layout es first 0 code).map Prod.snd)).Nodup)
    (hneeded : ∀ i ∈ code, i.localsNeeded ≤ low) {v₀ : T.World}
    (hrun : Run S T code.length (code.numbered 0) p w v₀ f visits)
    (hP : ∀ x ∈ visits, P x.entry.1 x.frame) (hf : f.Same low f') :
    ∃ visits', Run S T code.length (layout es first 0 code) (home es first code p) w v f' visits' ∧
      List.Forall₂ (Visit.Same low) visits (ownVisits code.length visits') := by
  induction hrun generalizing v f' with
  | @stop p w v₀ f entry a hentry hbegin =>
    obtain ⟨i, hi, rfl⟩ := getElem?_numbered_zero.1 hentry
    have hi' := hneeded i (List.mem_of_getElem? hi)
    obtain ⟨q, v', g, hq, hg, -, harrive⟩ := exists_arrival h hfirst hi hbegin
      (hP _ List.mem_cons_self) hf
    obtain ⟨b, hb, -⟩ := hg.begin hi' hbegin
    obtain ⟨new, hrun', hnew⟩ := harrive w _ (.stop hq hb)
    refine ⟨_, hrun', ?_⟩
    rw [ownVisits_append_of_woven hnew, ownVisits_cons (List.getElem?_eq_some_iff.1 hi).1]
    exact .cons (hg.visit hi') .nil
  | @own p p' w w' v₀ f f₁ entry visits hentry hlimit hstep hrest ih =>
    obtain ⟨i, hi, rfl⟩ := getElem?_numbered_zero.1 hentry
    have hi' := hneeded i (List.mem_of_getElem? hi)
    rw [map_snd_numbered] at hstep
    obtain ⟨a, hbegin⟩ := exists_begin_of_step hstep hi
    obtain ⟨q, v', g, hq, hg, hhome, harrive⟩ := exists_arrival (S := S) h hfirst hi hbegin
      (hP _ List.mem_cons_self) hf
    obtain ⟨g₁, hstep', hg₁⟩ := exists_step_home h hplaced hneeded hstep hi hq hhome hg
    obtain ⟨visits', hrun', hsame⟩ := ih (v := v')
      (fun x hx => hP x (List.mem_cons_of_mem _ hx)) hg₁
    obtain ⟨new, hrun', hnew⟩ := harrive w _ (.own hq hlimit hstep' hrun')
    refine ⟨_, hrun', ?_⟩
    rw [ownVisits_append_of_woven hnew, ownVisits_cons hlimit]
    exact .cons (hg.visit hi') hsame
  | woven hentry hlimit =>
    -- no number in unwoven code is as high as those of woven code
    obtain ⟨i, hi, rfl⟩ := getElem?_numbered_zero.1 hentry
    exact absurd (List.getElem?_eq_some_iff.1 hi).1 (Nat.not_lt_of_le hlimit)

end

end Plan

end CodeWeaving
