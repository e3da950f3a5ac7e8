import CodeWeaving.Proofs.Weaving.StackSafety

/-! A directive reads and changes nothing of a class but the methods that it is for, each of them by
itself. -/
namespace CodeWeaving

variable {σ ι : Type}

theorem InPlace.forM_preserves {P : σ → Prop} {f : ι → InPlace σ PUnit} {l : List ι} {s t : σ}
    (hstep : ∀ i s t, (f i).Done s ⟨⟩ t → P s → P t) (h : (l.forM f).Done s ⟨⟩ t) (hs : P s) :
    P t := by
  induction l generalizing s with
  | nil =>
    obtain ⟨-, rfl⟩ := InPlace.done_pure.1 h
    exact hs
  | cons i l ih =>
    obtain ⟨_, r, hfirst, hrest⟩ := InPlace.done_bind.1 h
    exact ih hrest (hstep i s r hfirst hs)

/-- The methods differ in their code and its bounds only; no selector tells them apart. -/
structure Method.SameHeader (m k : Method) : Prop where
  name : k.name = m.name
  signature : k.signature = m.signature
  flags : k.flags = m.flags

namespace Method.SameHeader

variable {m k l : Method}

theorem refl (m : Method) : m.SameHeader m := ⟨rfl, rfl, rfl⟩

theorem trans (h : m.SameHeader k) (h' : k.SameHeader l) : m.SameHeader l :=
  ⟨h'.name.trans h.name, h'.signature.trans h.signature, h'.flags.trans h.flags⟩

theorem accepts (h : m.SameHeader k) (s : MethodSelector) : s.accepts k = s.accepts m := by
  rw [MethodSelector.accepts, MethodSelector.accepts, h.name, h.signature]

end Method.SameHeader

namespace Plan

variable {p : Plan} {d u : Draft} {n : Nat}

theorem sameHeader_of_apply (h : p.apply.Done d n u) : d.method.SameHeader u.method := by
  cases p with
  | edits es slots =>
    obtain ⟨_, d₁, hlook, h⟩ := InPlace.done_bind.1 h
    obtain ⟨_, d₂, hedit, h⟩ := InPlace.done_bind.1 h
    obtain ⟨_, d₃, hraise, h⟩ := InPlace.done_bind.1 h
    obtain ⟨-, rfl⟩ := InPlace.done_pure.1 h
    have hlooked : d.method.SameHeader d₁.method := by
      apply InPlace.forM_preserves (P := fun u => d.method.SameHeader u.method) _ hlook (.refl _)
      intro e s t hdone hs
      obtain ⟨-, rfl⟩ := InPlace.done_require.1 hdone
      exact hs
    have hedited : d.method.SameHeader d₂.method := by
      apply InPlace.forM_preserves (P := fun u => d.method.SameHeader u.method) _ hedit hlooked
      intro e s t hdone hs
      have hmade : edit e s = .ok t := InPlace.done_update.1 hdone
      obtain ⟨stream, -, rfl⟩ := map_eq_ok.1 hmade
      exact ⟨hs.name, hs.signature, hs.flags⟩
    obtain ⟨maxStack, maxLocals, rfl, -⟩ := raise_eq_ok (InPlace.done_update.1 hraise)
    exact ⟨hedited.name, hedited.signature, hedited.flags⟩
  | newBody code maxStack maxLocals =>
    obtain ⟨_, _, hupdate, h⟩ := InPlace.done_bind.1 h
    obtain ⟨-, rfl⟩ := InPlace.done_pure.1 h
    cases InPlace.done_update.1 hupdate
    exact ⟨rfl, rfl, rfl⟩

end Plan

namespace Weaver

variable {settings : Settings} {handlers : HandlerProvider} {c : ClassDefinition} {d : Directive}
  {cx : Context} {m : Method} {before rest : List Method} {progress progress' : Progress}
  {index : Nat} {draft left : Draft} {n : Nat}

theorem sameHeader_of_check (h : (check settings m).Done draft ⟨⟩ left) :
    draft.method.SameHeader left.method := by
  obtain ⟨-, w, htighten, hcover⟩ := done_check h
  obtain ⟨maxLocals, rfl, -⟩ := coverLocals_eq_ok hcover
  rcases htighten with rfl | htighten
  · exact ⟨rfl, rfl, rfl⟩
  · obtain ⟨k, hk, rfl⟩ := map_eq_ok.1 htighten
    exact ⟨rfl, rfl, rfl⟩

theorem sameHeader_of_weaveMethod (h : (weaveMethod cx).Done draft n left) :
    draft.method.SameHeader left.method := by
  obtain ⟨p, edited, -, happly, hcheck⟩ := done_weaveMethod.1 h
  exact (Plan.sameHeader_of_apply happly).trans (sameHeader_of_check hcheck)

/-- The method after weaving, if there was anything to do and no fault. -/
def wovenMethod (cx : Context) (m : Method) : Method :=
  match (weaveMethod cx).result (Draft.ofMethod m) with
  | .ok _ => ((weaveMethod cx).left (Draft.ofMethod m)).method
  | .error _ => m

theorem sameHeader_wovenMethod : m.SameHeader (wovenMethod cx m) := by
  unfold wovenMethod
  split
  · rename_i n hresult
    exact sameHeader_of_weaveMethod ⟨hresult, rfl⟩
  · exact .refl m

/-- How far a directive comes through methods, one after another. -/
def tally (cx : Context) (progress : Progress) : List Method → Except WeaveError Progress
  | [] => .ok progress
  | m :: ms => match (weaveMethod cx).result (Draft.ofMethod m) with
    | .ok points => tally cx (progress.add m points) ms
    | .error (.noMatch sought) => tally cx { progress with unmatched := some sought } ms
    | .error e => .error e

/-- The places of the methods that a directive is for, counted from a place on. -/
def placesFrom (d : Directive) (start : Nat) (ms : List Method) : List Nat :=
  ((ms.zipIdx start).filter fun (m, _) => d.target.accepts m).map Prod.snd

theorem placesFrom_cons {start : Nat} : placesFrom d start (m :: rest) =
    if d.target.accepts m then start :: placesFrom d (start + 1) rest
    else placesFrom d (start + 1) rest := by
  unfold placesFrom
  rw [List.zipIdx_cons, List.filter_cons]
  by_cases haccepts : d.target.accepts m = true
  · rw [if_pos haccepts, if_pos haccepts]
    rfl
  · rw [if_neg haccepts, if_neg haccepts]

/-- The place of a method with others before and behind it. -/
theorem weaveAt_length (cx : Context) (before : List Method) (m : Method) (rest : List Method) :
    (weaveAt cx before.length).left (before ++ m :: rest) =
      before ++ ((weaveMethod cx).left (Draft.ofMethod m)).method :: rest ∧
    (weaveAt cx before.length).result (before ++ m :: rest) =
      ((weaveMethod cx).result (Draft.ofMethod m)).map fun n => some (m, n) := by
  have hget : (before ++ m :: rest)[before.length]? = some m := by simp
  have hat := @weaveAt_eq cx (before ++ m :: rest) before.length
  simp only [hget] at hat
  rw [hat.1, hat.2]
  simp

/-- The methods are gone through one by one, whatever stands before, between and behind them. -/
theorem weaveTargets_placesFrom (cx : Context) (d : Directive) (before rest : List Method)
    (progress : Progress) :
    (∀ p, tally cx progress (rest.filter d.target.accepts) = .ok p →
      (weaveTargets cx progress (placesFrom d before.length rest)).Done (before ++ rest) p
        (before ++ rest.map fun m => if d.target.accepts m then wovenMethod cx m else m)) ∧
    ∀ e, tally cx progress (rest.filter d.target.accepts) = .error e →
      ∃ ms, (weaveTargets cx progress (placesFrom d before.length rest)).Failed (before ++ rest) e
        ms := by
  induction rest generalizing before progress with
  | nil =>
    refine ⟨?_, ?_⟩
    · intro p hp
      cases hp
      exact InPlace.done_pure.2 ⟨rfl, rfl⟩
    · intro e he
      cases he
  | cons m rest ih =>
    have hnext (k : Method) (progress : Progress) := ih (before ++ [k]) progress
    simp only [List.length_append, List.length_singleton, List.append_assoc, List.cons_append,
      List.nil_append] at hnext
    rw [placesFrom_cons, List.filter_cons, List.map_cons]
    by_cases haccepts : d.target.accepts m = true
    · rw [if_pos haccepts, if_pos haccepts, if_pos haccepts, weaveTargets]
      obtain ⟨hleft, hresult⟩ := weaveAt_length cx before m rest
      rcases InPlace.done_or_failed (weaveMethod cx) (Draft.ofMethod m) with ⟨n, hdone⟩ | ⟨e, hfail⟩
      · have hwoven : wovenMethod cx m = ((weaveMethod cx).left (Draft.ofMethod m)).method := by
          rw [wovenMethod, hdone.1]
        rw [hdone.1] at hresult
        have hat := InPlace.done_attempt.2 ⟨hresult, hleft⟩
        rw [← hwoven] at hat
        simp only [InPlace.done_bind_of_done hat, InPlace.failed_bind_of_done hat, tally, hdone.1]
        exact hnext _ _
      · rw [hfail.1] at hresult
        have hwoven : wovenMethod cx m = m := by
          rw [wovenMethod, hfail.1]
        have hat := InPlace.done_attempt.2 ⟨hresult, hleft⟩
        simp only [InPlace.done_bind_of_done hat, InPlace.failed_bind_of_done hat, tally, hfail.1]
        -- only the lack of a match lets the other methods have their turn
        cases e with
        | noMatch sought =>
          rw [left_eq_of_noMatch hfail, hwoven]
          exact hnext _ _
        | _ =>
          refine ⟨?_, ?_⟩
          · intro p hp
            cases hp
          · intro e he
            cases he
            exact ⟨_, InPlace.failed_fail.2 ⟨rfl, rfl⟩⟩
    · rw [if_neg haccepts, if_neg haccepts, if_neg haccepts]
      exact hnext m progress

/-- What weaving a directive into a class of a name comes to, by the methods that it is for. -/
def verdict (settings : Settings) (handlers : HandlerProvider) (d : Directive) (name : ClassName)
    (own : List Method) : Except WeaveError Progress :=
  if d.targetClass ≠ name then .error (.wrongClass d.targetClass name)
  else if own.isEmpty then .error (.noTargetMethod name d.target)
  else match handlers d.handler with
    | none => .error (.unresolvedHandler d.handler)
    | some body =>
      (tally ⟨settings, name, d, ⟨d.handler, body⟩⟩ Progress.start own).bind Progress.verdict

/-- What becomes of a method of the class: with another verdict than success, nothing. -/
def rework (settings : Settings) (handlers : HandlerProvider) (d : Directive) (name : ClassName)
    (own : List Method) (m : Method) : Method :=
  match verdict settings handlers d name own, handlers d.handler with
  | .ok _, some body =>
    if d.target.accepts m then wovenMethod ⟨settings, name, d, ⟨d.handler, body⟩⟩ m else m
  | _, _ => m

/-- The methods of a class that a directive is for. -/
def own (d : Directive) (c : ClassDefinition) : List Method := c.methods.filter d.target.accepts

theorem sameHeader_rework {name : ClassName} {ms : List Method} :
    m.SameHeader (rework settings handlers d name ms m) := by
  unfold rework
  split
  · split
    · exact sameHeader_wovenMethod
    · exact .refl m
  · exact .refl m

theorem rework_of_not_accepts {name : ClassName} {ms : List Method}
    (h : d.target.accepts m = false) : rework settings handlers d name ms m = m := by
  unfold rework
  split
  · rw [if_neg (Bool.eq_false_iff.1 h)]
  · rfl

theorem isEmpty_targets : (targets c d).isEmpty = (own d c).isEmpty := by
  have hown : (targets c d).map Prod.fst = own d c := by
    unfold targets own
    rw [← List.zipIdx_map_fst 0 c.methods, List.filter_map, List.zipIdx_map_fst]
    rfl
  rw [← hown, List.isEmpty_map]

theorem weaveAll_of_attempt {snapshots : List (Method × Nat)} {ms ms' : List Method}
    {r : Except WeaveError Progress}
    (h : (weaveTargets cx Progress.start (snapshots.map Prod.snd)).attempt.Done ms r ms') :
    (∀ p, r.bind Progress.verdict = .ok p → (weaveAll cx snapshots).Done ms p ms') ∧
      ∀ e, r.bind Progress.verdict = .error e →
        (weaveAll cx snapshots).Failed ms e (restore snapshots ms') := by
  simp only [weaveAll, InPlace.done_bind_of_done h, InPlace.failed_bind_of_done h]
  refine ⟨?_, ?_⟩
  · intro p hp
    simp only [hp]
    exact InPlace.done_pure.2 ⟨rfl, rfl⟩
  · intro e he
    simp only [he]
    refine InPlace.failed_bind.2 (.inr ⟨⟨⟩, _, InPlace.done_update.2 rfl, ?_⟩)
    exact InPlace.failed_fail.2 ⟨rfl, rfl⟩

theorem weaveAll_targets :
    (∀ p, (tally cx Progress.start (own d c)).bind Progress.verdict = .ok p →
      (weaveAll cx (targets c d)).Done c.methods p
        (c.methods.map fun m => if d.target.accepts m then wovenMethod cx m else m)) ∧
    ∀ e, (tally cx Progress.start (own d c)).bind Progress.verdict = .error e →
      ∃ ms, (weaveAll cx (targets c d)).Failed c.methods e ms := by
  obtain ⟨hok, herror⟩ := weaveTargets_placesFrom cx d [] c.methods Progress.start
  cases htally : tally cx Progress.start (own d c) with
  | ok p =>
    have hdone := hok p htally
    obtain ⟨hsuccess, hfailure⟩ := weaveAll_of_attempt (InPlace.done_attempt.2 hdone)
    exact ⟨hsuccess, fun e he => ⟨_, hfailure e he⟩⟩
  | error e =>
    obtain ⟨ms, hfailed⟩ := herror e htally
    obtain ⟨hsuccess, hfailure⟩ := weaveAll_of_attempt (InPlace.done_attempt.2 hfailed)
    refine ⟨?_, fun e he => ⟨_, hfailure e he⟩⟩
    intro p hp
    cases hp

theorem map_rework_of_error {e : WeaveError}
    (h : verdict settings handlers d c.name (own d c) = .error e) :
    c.methods.map (rework settings handlers d c.name (own d c)) = c.methods := by
  have hid : rework settings handlers d c.name (own d c) = id := by
    funext m
    rw [rework, h]
    rfl
  rw [hid, List.map_id]

theorem failed_weaveDirective {e : WeaveError}
    (h : verdict settings handlers d c.name (own d c) = .error e) :
    (weaveDirective settings handlers d).Failed c e c := by
  suffices hfailed : ∃ c', (weaveDirective settings handlers d).Failed c e c' by
    obtain ⟨c', hfailed⟩ := hfailed
    have hsame := left_eq_of_failed hfailed
    rwa [hsame] at hfailed
  unfold verdict at h
  unfold weaveDirective
  simp only [InPlace.failed_read_bind, InPlace.failed_unless, isEmpty_targets]
  by_cases hclass : d.targetClass ≠ c.name
  · rw [if_pos hclass] at h
    cases h
    exact ⟨c, .inl ⟨hclass, rfl, rfl⟩⟩
  rw [if_neg hclass] at h
  by_cases hnone : (own d c).isEmpty = true
  · rw [if_pos hnone] at h
    cases h
    exact ⟨c, .inr ⟨hclass, .inl ⟨hnone, rfl, rfl⟩⟩⟩
  rw [if_neg hnone] at h
  cases hbody : handlers d.handler with
  | none =>
    rw [hbody] at h
    cases h
    exact ⟨c, .inr ⟨hclass, .inr ⟨hnone, InPlace.failed_fail.2 ⟨rfl, rfl⟩⟩⟩⟩
  | some body =>
    rw [hbody] at h
    obtain ⟨ms, hfailed⟩ := weaveAll_targets.2 e h
    exact ⟨_, .inr ⟨hclass, .inr ⟨hnone, InPlace.failed_within.2 ⟨ms, hfailed, rfl⟩⟩⟩⟩

theorem done_weaveDirective (h : verdict settings handlers d c.name (own d c) = .ok progress) :
    (weaveDirective settings handlers d).Done c progress
      { c with methods := c.methods.map (rework settings handlers d c.name (own d c)) } := by
  have hverdict := h
  unfold verdict at h
  unfold weaveDirective
  simp only [InPlace.done_read_bind, InPlace.done_unless, isEmpty_targets]
  by_cases hclass : d.targetClass ≠ c.name
  · rw [if_pos hclass] at h
    cases h
  rw [if_neg hclass] at h
  by_cases hnone : (own d c).isEmpty = true
  · rw [if_pos hnone] at h
    cases h
  rw [if_neg hnone] at h
  refine ⟨hclass, hnone, ?_⟩
  cases hbody : handlers d.handler with
  | none =>
    rw [hbody] at h
    cases h
  | some body =>
    rw [hbody] at h
    have hrework : rework settings handlers d c.name (own d c) = fun m =>
        if d.target.accepts m then wovenMethod ⟨settings, c.name, d, ⟨d.handler, body⟩⟩ m
        else m := by
      funext m
      rw [rework, hverdict, hbody]
    rw [hrework]
    exact InPlace.done_within.2 ⟨_, weaveAll_targets.1 progress h, rfl⟩

/-- What weaving a directive comes to is decided by the methods that it is for. -/
def outcomeOf (index : Nat) (d : Directive) : Except WeaveError Progress → Outcome
  | .ok progress => ⟨index, d, progress.methods, progress.points, .applied⟩
  | .error cause => ⟨index, d, [], 0, statusOf d cause⟩

/-- The methods that a directive is for decide on its outcome, and each changes by itself. -/
theorem weaveOne_eq : (weaveOne settings handlers c index d).1 =
      { c with methods := c.methods.map (rework settings handlers d c.name (own d c)) } ∧
    (weaveOne settings handlers c index d).2.1 =
      outcomeOf index d (verdict settings handlers d c.name (own d c)) := by
  unfold weaveOne
  cases hverdict : verdict settings handlers d c.name (own d c) with
  | ok progress =>
    have hdone := done_weaveDirective hverdict
    have hresult : (weaveDirective settings handlers d c).2.result = .ok progress := hdone.1
    simp only [hresult]
    exact ⟨hdone.2, rfl⟩
  | error e =>
    have hfailed := failed_weaveDirective hverdict
    have hresult : (weaveDirective settings handlers d c).2.result = .error e := hfailed.1
    simp only [hresult, map_rework_of_error hverdict]
    exact ⟨hfailed.2, rfl⟩

end Weaver

end CodeWeaving
