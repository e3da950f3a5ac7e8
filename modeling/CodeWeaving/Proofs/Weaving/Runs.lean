import CodeWeaving.Proofs.Depth.Labels
import CodeWeaving.Weaving.Weaver

/-! Whole weavings: a directive that fails undoes all it did, and what weaving into one method
keeps, all of them keep. -/
namespace CodeWeaving

theorem Traced.bind_eq_ok {α β : Type} {x : Traced α} {f : α → Traced β} {b : β} :
    (x >>= f).result = .ok b ↔ ∃ a, x.result = .ok a ∧ (f a).result = .ok b := by
  rw [result_bind]
  exact CodeWeaving.bind_eq_ok

theorem Traced.bind_eq_error {α β : Type} {x : Traced α} {f : α → Traced β} {e : WeaveError} :
    (x >>= f).result = .error e ↔
      x.result = .error e ∨ ∃ a, x.result = .ok a ∧ (f a).result = .error e := by
  rw [result_bind]
  exact CodeWeaving.bind_eq_error

/-- A step that may fail has not failed if there is a result. -/
theorem Traced.unless_fail_eq_ok {α : Type} {c : Prop} [Decidable c] {e : WeaveError}
    {x : Traced α} {b : α} :
    (if c then (do Traced.fail e; x) else x).result = .ok b ↔ ¬ c ∧ x.result = .ok b := by
  split <;> simp [*, Except.bind]

/-- Carrying a plan out fails on the weaver's side only. -/
theorem Plan.exists_invariant_of_failed {p : Plan} {d t : Draft} {e : WeaveError}
    (h : p.apply.Failed d e t) : ∃ fault, e = .invariant fault := by
  have hmap {α : Type} {x : Except AnchorError α} (h : x.mapError anchorFault = .error e) :
      ∃ fault, e = .invariant fault := by
    obtain ⟨a, -, rfl⟩ := mapError_eq_error.1 h
    exact ⟨_, rfl⟩
  cases p with
  | edits es slots =>
    simp only [apply, InPlace.failed_bind] at h
    rcases h with h | ⟨_, _, -, h | ⟨_, _, -, h | ⟨_, _, -, h⟩⟩⟩
    · obtain ⟨e, -, _, _, h⟩ := InPlace.exists_failed_of_forM h
      exact hmap (InPlace.failed_require.1 h).1
    · obtain ⟨e, -, _, _, h⟩ := InPlace.exists_failed_of_forM h
      exact hmap (map_eq_error.1 (InPlace.failed_update.1 h).1)
    · obtain ⟨h, -⟩ := InPlace.failed_update.1 h
      unfold raise at h
      dsimp only at h
      split at h <;> cases h
      exact ⟨_, rfl⟩
    · exact absurd h InPlace.not_failed_pure
  | newBody code maxStack maxLocals => simp [apply] at h

namespace Weaver

variable {settings : Settings} {handlers : HandlerProvider} {c c' : ClassDefinition}
  {d : Directive} {cx : Context} {m : Method} {ms ms' : List Method} {progress progress' : Progress}
  {P : Method → Prop} {index place : Nat} {places : List Nat} {draft left : Draft}
  {e : WeaveError}

theorem cause_of_coverLocals (h : (InPlace.update coverLocals).Failed draft e left) :
    e = .tooManyLocals := by
  obtain ⟨h, -⟩ := InPlace.failed_update.1 h
  unfold coverLocals at h
  split at h <;> cases h
  rfl

theorem cause_of_check_failed (h : (check settings m).Failed draft e left) :
    (∃ fault, e = .invariant fault) ∨ e = .tooManyLocals := by
  rcases InPlace.failed_bind.1 h with h | ⟨_, _, -, h⟩
  · obtain ⟨a, -, rfl⟩ := mapError_eq_error.1 (InPlace.failed_require.1 h).1
    exact .inl ⟨_, rfl⟩
  · split at h
    · rcases InPlace.failed_bind.1 h with h | ⟨_, _, -, h⟩
      · obtain ⟨a, -, rfl⟩ := mapError_eq_error.1
          (map_eq_error.1 (InPlace.failed_update.1 h).1)
        exact .inl ⟨_, rfl⟩
      · exact .inr (cause_of_coverLocals h)
    · exact .inr (cause_of_coverLocals h)

theorem done_weaveMethod {n : Nat} : (weaveMethod cx).Done draft n left ↔
    ∃ p edited, (plan cx draft).result = .ok p ∧ p.apply.Done draft n edited ∧
      (check cx.settings draft.method).Done edited ⟨⟩ left := by
  rw [weaveMethod, InPlace.done_read_bind]
  simp only [InPlace.done_bind, InPlace.done_looking, InPlace.done_pure]
  constructor
  · rintro ⟨p, _, ⟨hplan, rfl⟩, _, edited, happly, _, _, hcheck, rfl, rfl⟩
    exact ⟨p, edited, hplan, happly, hcheck⟩
  · rintro ⟨p, edited, hplan, happly, hcheck⟩
    exact ⟨p, draft, ⟨hplan, rfl⟩, n, edited, happly, ⟨⟩, left, hcheck, rfl, rfl⟩

theorem failed_weaveMethod : (weaveMethod cx).Failed draft e left ↔
    (plan cx draft).result = .error e ∧ draft = left ∨ ∃ p, (plan cx draft).result = .ok p ∧
      (p.apply.Failed draft e left ∨ ∃ n edited, p.apply.Done draft n edited ∧
        (check cx.settings draft.method).Failed edited e left) := by
  rw [weaveMethod, InPlace.failed_read_bind]
  simp only [InPlace.failed_bind, InPlace.failed_looking, InPlace.done_looking,
    InPlace.not_failed_pure, and_false, exists_false, or_false]
  constructor
  · rintro (h | ⟨p, _, ⟨hplan, rfl⟩, h⟩)
    · exact .inl h
    · exact .inr ⟨p, hplan, h⟩
  · rintro (h | ⟨p, hplan, h⟩)
    · exact .inl h
    · exact .inr ⟨p, draft, ⟨hplan, rfl⟩, h⟩

/-- A method in which nothing is found is left as it is: all that fails after planning has another
cause. -/
theorem left_eq_of_noMatch {sought : Sought}
    (h : (weaveMethod cx).Failed draft (.noMatch sought) left) : left = draft := by
  rcases failed_weaveMethod.1 h with ⟨-, rfl⟩ | ⟨p, -, h | ⟨_, _, -, h⟩⟩
  · rfl
  · cases (Plan.exists_invariant_of_failed h).choose_spec
  · rcases cause_of_check_failed h with ⟨_, h⟩ | h <;> cases h

/-- What weaving at a place comes to. -/
theorem weaveAt_eq : (weaveAt cx place).left ms = (match ms[place]? with
      | none => ms
      | some m => ms.set place ((weaveMethod cx).left (Draft.ofMethod m)).method) ∧
    (weaveAt cx place).result ms = match ms[place]? with
      | none => .ok none
      | some m => ((weaveMethod cx).result (Draft.ofMethod m)).map fun n => some (m, n) := by
  rw [weaveAt, InPlace.read_bind.1, InPlace.read_bind.2]
  cases ms[place]? with
  | none => exact ⟨rfl, rfl⟩
  | some m => exact InPlace.bind_pure_eq

/-- Methods that differ at some places at most. -/
def SameOff (places : List Nat) (ms ms' : List Method) : Prop :=
  ms'.length = ms.length ∧ ∀ i ∉ places, ms'[i]? = ms[i]?

theorem sameOff_weaveAt (place : Nat) (ms : List Method) :
    SameOff [place] ms ((weaveAt cx place).left ms) := by
  rw [weaveAt_eq.1]
  cases ms[place]? with
  | none => exact ⟨rfl, fun _ _ => rfl⟩
  | some m =>
    exact ⟨List.length_set, fun i hi => List.getElem?_set_ne fun h => hi (by simp [h])⟩

/-- However far a directive comes, the places that it is not for are as they were. -/
theorem sameOff_weaveTargets (places : List Nat) (progress : Progress) (ms : List Method) :
    SameOff places ms ((weaveTargets cx progress places).left ms) := by
  induction places generalizing progress ms with
  | nil => exact ⟨rfl, fun _ _ => rfl⟩
  | cons place places ih =>
    have hfirst : SameOff [place] ms ((weaveAt cx place).left ms) := sameOff_weaveAt place ms
    have hrest (progress : Progress) : SameOff (place :: places) ms
        ((weaveTargets cx progress places).left ((weaveAt cx place).left ms)) := by
      obtain ⟨hlength, hsame⟩ := ih progress ((weaveAt cx place).left ms)
      refine ⟨hlength.trans hfirst.1, fun i hi => ?_⟩
      obtain ⟨hplace, hplaces⟩ := List.ne_and_not_mem_of_not_mem_cons hi
      exact (hsame i hplaces).trans (hfirst.2 i (by simpa using hplace))
    rw [weaveTargets, InPlace.left_attempt_bind]
    split
    · exact hrest _
    · exact hrest _
    · exact hrest _
    · refine ⟨hfirst.1, fun i hi => ?_⟩
      obtain ⟨hplace, -⟩ := List.ne_and_not_mem_of_not_mem_cons hi
      exact hfirst.2 i (by simpa using hplace)

/-- Putting methods back at all places that may differ undoes every change. -/
theorem restore_of_sameOff {snapshots : List (Method × Nat)}
    (h : SameOff (snapshots.map Prod.snd) ms ms')
    (hms : ∀ m place, (m, place) ∈ snapshots → ms[place]? = some m) :
    restore snapshots ms' = ms := by
  induction snapshots generalizing ms' with
  | nil => exact List.ext_getElem? fun i => h.2 i List.not_mem_nil
  | cons s snapshots ih =>
    obtain ⟨m, place⟩ := s
    refine ih ⟨List.length_set.trans h.1, fun i hi => ?_⟩
      fun m' place' hmem => hms m' place' (List.mem_cons_of_mem _ hmem)
    by_cases hplace : place = i
    · subst hplace
      have hm := hms m place List.mem_cons_self
      have hlt : place < ms'.length := h.1 ▸ (List.getElem?_eq_some_iff.1 hm).1
      rw [List.getElem?_set_self hlt, hm]
    · rw [List.getElem?_set_ne hplace]
      exact h.2 i (by simpa [Ne.symm hplace] using hi)

theorem mem_targets {place : Nat} (h : (m, place) ∈ targets c d) : c.methods[place]? = some m := by
  simpa using (List.mem_zipIdx_iff_getElem?.1 (List.mem_of_mem_filter h))

theorem left_eq_of_weaveAll_failed {snapshots : List (Method × Nat)}
    (hms : ∀ m place, (m, place) ∈ snapshots → ms[place]? = some m)
    (h : (weaveAll cx snapshots).Failed ms e ms') : ms' = ms := by
  rcases InPlace.failed_bind.1 h with h | ⟨attempted, _, hattempt, h⟩
  · exact absurd h InPlace.not_failed_attempt
  obtain ⟨-, rfl⟩ := InPlace.done_attempt.1 hattempt
  split at h
  · exact absurd h InPlace.not_failed_pure
  · rcases InPlace.failed_bind.1 h with h | ⟨_, _, hrestore, h⟩
    · cases (InPlace.failed_update.1 h).1
    · cases InPlace.done_update.1 hrestore
      rw [← (InPlace.failed_fail.1 h).2]
      exact restore_of_sameOff (sameOff_weaveTargets _ _ _) hms

/-- A directive that fails leaves no trace. -/
theorem left_eq_of_failed (h : (weaveDirective settings handlers d).Failed c e c') : c' = c := by
  rw [weaveDirective, InPlace.failed_read_bind] at h
  simp only [InPlace.failed_unless] at h
  rcases h with ⟨-, -, h⟩ | ⟨-, ⟨-, -, h⟩ | ⟨-, h⟩⟩
  · exact h.symm
  · exact h.symm
  · split at h
    · exact (InPlace.failed_fail.1 h).2.symm
    · obtain ⟨methods, hall, rfl⟩ := InPlace.failed_within.1 h
      rw [left_eq_of_weaveAll_failed (fun m place => mem_targets) hall]

/-- Unless a directive is applied, it leaves no trace but the cause. -/
theorem weaveOne_atomic :
    (weaveOne settings handlers c index d).2.1.status = .applied ∨
      (weaveOne settings handlers c index d).1 = c ∧
        (weaveOne settings handlers c index d).2.1.methods = [] ∧
        (weaveOne settings handlers c index d).2.1.points = 0 := by
  unfold weaveOne
  rcases InPlace.done_or_failed (weaveDirective settings handlers d) c with ⟨a, h⟩ | ⟨e, h⟩
  · have : (weaveDirective settings handlers d c).2.result = .ok a := h.1
    simp [this]
  · have : (weaveDirective settings handlers d c).2.result = .error e := h.1
    simp only [this]
    exact .inr ⟨left_eq_of_failed h, trivial, trivial⟩

theorem done_of_weaveAll {snapshots : List (Method × Nat)}
    (h : (weaveAll cx snapshots).Done ms progress ms') : ∃ progress',
      (weaveTargets cx Progress.start (snapshots.map Prod.snd)).Done ms progress' ms' := by
  obtain ⟨attempted, _, hattempt, h⟩ := InPlace.done_bind.1 h
  obtain ⟨hresult, hleft⟩ := InPlace.done_attempt.1 hattempt
  split at h
  · rename_i hverdict
    obtain ⟨-, rfl⟩ := InPlace.done_pure.1 h
    obtain ⟨progress', rfl, -⟩ := bind_eq_ok.1 hverdict
    exact ⟨progress', hresult, hleft⟩
  · obtain ⟨_, _, -, h⟩ := InPlace.done_bind.1 h
    exact absurd h InPlace.not_done_fail

theorem done_of_weaveDirective (h : (weaveDirective settings handlers d).Done c progress c') :
    ∃ body methods progress', handlers d.handler = some body ∧ c' = { c with methods } ∧
      (weaveTargets ⟨settings, c.name, d, ⟨d.handler, body⟩⟩ Progress.start
        ((targets c d).map Prod.snd)).Done c.methods progress' methods := by
  rw [weaveDirective, InPlace.done_read_bind] at h
  simp only [InPlace.done_unless] at h
  obtain ⟨-, -, h⟩ := h
  split at h
  · exact absurd h InPlace.not_done_fail
  · rename_i body hbody
    obtain ⟨methods, hall, rfl⟩ := InPlace.done_within.1 h
    obtain ⟨progress', htargets⟩ := done_of_weaveAll hall
    exact ⟨body, methods, progress', hbody, rfl, htargets⟩

section

variable (hstep : ∀ cx m n d, handlers cx.handler.reference = some cx.handler.body → P m →
  (weaveMethod cx).Done (Draft.ofMethod m) n d → P d.method)

include hstep

theorem weaveTargets_preserves (hhandler : handlers cx.handler.reference = some cx.handler.body)
    (h : (weaveTargets cx progress places).Done ms progress' ms') (hP : ∀ m ∈ ms, P m) :
    ∀ m ∈ ms', P m := by
  induction places generalizing progress ms with
  | nil =>
    obtain ⟨-, rfl⟩ := InPlace.done_pure.1 h
    exact hP
  | cons place places ih =>
    obtain ⟨attempted, _, hattempt, h⟩ := InPlace.done_bind.1 h
    obtain ⟨hresult, rfl⟩ := InPlace.done_attempt.1 hattempt
    rw [weaveAt_eq.1] at h
    rw [weaveAt_eq.2] at hresult
    cases hm : ms[place]? with
    | none =>
      simp only [hm] at h hresult
      subst hresult
      exact ih h hP
    | some m =>
      simp only [hm] at h hresult
      have hmem : P m := hP m (List.mem_of_getElem? hm)
      have hset {m' : Method} (hm' : P m') : ∀ m ∈ ms.set place m', P m := fun k hk =>
        (List.mem_or_eq_of_mem_set hk).elim (hP k) fun h => h ▸ hm'
      rcases InPlace.done_or_failed (weaveMethod cx) (Draft.ofMethod m) with ⟨n, hdone⟩ | ⟨e, hfail⟩
      · rw [hdone.1] at hresult
        subst hresult
        exact ih h (hset (hstep cx m n _ hhandler hmem hdone))
      · rw [hfail.1] at hresult
        subst hresult
        cases e with
        | noMatch sought =>
          rw [left_eq_of_noMatch hfail] at h
          exact ih h (hset hmem)
        | _ => exact absurd h InPlace.not_done_fail

theorem weaveOne_preserves (hP : ∀ m ∈ c.methods, P m) :
    ∀ m ∈ (weaveOne settings handlers c index d).1.methods, P m := by
  have hleft : (weaveOne settings handlers c index d).1 =
      (weaveDirective settings handlers d).left c := by
    unfold weaveOne
    dsimp only
    split <;> rfl
  rw [hleft]
  rcases InPlace.done_or_failed (weaveDirective settings handlers d) c with ⟨_, h⟩ | ⟨_, h⟩
  · obtain ⟨body, methods, _, hbody, hmethods, h⟩ := done_of_weaveDirective h
    rw [hmethods]
    exact weaveTargets_preserves hstep hbody h hP
  · rw [left_eq_of_failed h]
    exact hP

theorem weaveInOrder_preserves {ds : List (Directive × Nat)} (hP : ∀ m ∈ c.methods, P m) :
    ∀ m ∈ (weaveInOrder settings handlers c ds).cls.methods, P m := by
  induction ds generalizing c with
  | nil => exact hP
  | cons d ds ih =>
    obtain ⟨d, index⟩ := d
    exact ih (weaveOne_preserves hstep hP)

/-- What holds of every method, and is kept by weaving into one, holds after any weaving. -/
theorem weave_preserves {ds : List Directive} (hP : ∀ m ∈ c.methods, P m) :
    ∀ m ∈ (weave settings handlers c ds).cls.methods, P m := by
  unfold weave
  split
  · exact hP
  · exact weaveInOrder_preserves hstep hP

end

end Weaver

end CodeWeaving
