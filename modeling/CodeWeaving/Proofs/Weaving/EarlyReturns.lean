import CodeWeaving.Proofs.Weaving.Layout

/-! Where a constructor returns early: as far from one of its own returns as the point is shifted,
and thus at the return itself only if it is not. -/
namespace CodeWeaving

open Code

namespace Plan

variable {es : List Edit} {e : Edit} {first : Nat → Nat} {code : Code} {i : Instruction}
  {x : Nat × Instruction}

/-- What is new in woven code comes from an edit, for an instruction of the old code. -/
theorem exists_edit_of_mem_layout (h : x ∈ layout es first 0 code) (hnew : code.length ≤ x.1) :
    ∃ e ∈ es, ∃ i, code[e.anchor.index]? = some i ∧ x ∈ e.expand (first e.anchor.index) i := by
  obtain ⟨⟨k, i⟩, hentry, hmem⟩ := List.mem_flatMap.1 h
  obtain ⟨q, hq, rfl⟩ := mem_numbered.1 hentry
  rw [Nat.zero_add] at hmem hentry
  unfold block at hmem
  split at hmem
  · rename_i e hfind
    have hindex : e.anchor.index = q := by simpa using List.find?_some hfind
    exact ⟨e, List.mem_of_find?_eq_some hfind, i, hindex ▸ hq, hindex ▸ hmem⟩
  · obtain rfl := List.mem_singleton.1 hmem
    have hlt := (List.getElem?_eq_some_iff.1 hq).1
    exact absurd hnew (Nat.not_le.2 hlt)

end Plan

namespace Weaver

variable {m : Method} {es : List Edit} {first : Nat → Nat} {u : Draft} {a : Anchor} {code : Code}
  {i : Instruction} {before after : List (Nat × Instruction)} {entry : Nat × Instruction}

/-- After code that is inserted before an instruction that one is the next of the old code. -/
theorem Laid.next_old (h : Laid m es first u) (he : .insertBefore a code ∈ es)
    (hi : m.code[a.index]? = some i) (hentry : entry ∈ code.numbered (first a.index))
    (hsplit : u.stream.entries = before ++ entry :: after) :
    after.find? (fun x => x.1 < m.code.length) = some (a.index, i) := by
  have hlt := (List.getElem?_eq_some_iff.1 hi).1
  obtain ⟨before', after', hstands⟩ := Plan.exists_standsAt he h.index hi h.first
  rw [← h.entries] at hstands
  obtain ⟨above, below, hnumbered⟩ := List.append_of_mem hentry
  have hentries : u.stream.entries =
      (before' ++ above) ++ entry :: (below ++ (a.index, i) :: after') := by
    rw [hstands.entries, Edit.anchor, Edit.expand, hnumbered]
    simp
  -- an entry stands in one place, as no number is given twice
  have honce := CodeStream.ne_of_split hsplit
  obtain ⟨-, -, rfl⟩ := (List.append_cons_inj_of_notMem (fun hx => honce entry (.inl hx) rfl)
    fun hx => honce entry (.inr hx) rfl).1 (hsplit.symm.trans hentries)
  rw [List.find?_append, List.find?_eq_none.2, Option.none_or, List.find?_cons_of_pos]
  · simpa using hlt
  · intro x hx
    have hx : x ∈ code.numbered (first a.index) := by
      rw [hnumbered]
      exact List.mem_append_right _ (List.mem_cons_of_mem _ hx)
    simpa using h.le_of_mem_numbered hx

end Weaver

theorem InjectionPoint.moved_zero {size position : Nat} (h : position < size) :
    moved size position 0 = position := by
  rw [moved, Int32.toInt_zero]
  omega

namespace Inject

variable {cx : Context} {m : Method} {point : InjectionPoint} {cancellable : Bool}
  {sites : List Site} {site : Site} {es : List Edit} {slots : SlotAllocator}

/-- The sites of a point at returns are as far from returns as it is shifted. -/
theorem shifted_of_sites (hselector : point.selector = .returns)
    (h : Context.sites (Draft.ofMethod m) point = .ok sites) (hsite : site ∈ sites) :
    ∃ r kind, m.code[r]? = some (.ret kind) ∧
      site.anchor.index = InjectionPoint.moved m.code.length r point.shift := by
  obtain ⟨found, hfound, h⟩ := bind_eq_ok.1 h
  split at h <;> cases h
  rw [CodeStream.locate_eq] at hfound
  obtain ⟨positions, hpositions, rfl⟩ := map_eq_ok.1 hfound
  obtain ⟨q, hq, n, hentry, hanchor⟩ := CodeStream.mem_sites.1 hsite
  rw [Draft.ofMethod, CodeStream.entries_ofList] at hentry
  obtain ⟨i, -, hentry⟩ := getElem?_numbered_zero.1 hentry
  cases hentry
  rw [InjectionPoint.positions, hselector, Draft.ofMethod, CodeStream.instructions_ofList]
    at hpositions
  cases hpositions
  obtain ⟨r, hr, rfl⟩ := List.mem_map.1 (List.mem_eraseDups.1 hq)
  obtain ⟨i, hi, hreturn⟩ := Code.mem_positions.1 hr
  cases i with
  | ret kind => exact ⟨r, kind, hi, congrArg Anchor.index hanchor⟩
  | _ => cases hreturn

theorem edits_of_plan (hselector : point.selector = .returns)
    (h : (plan cx (Draft.ofMethod m) point cancellable).result = .ok (.edits es slots)) :
    ∀ e ∈ es, ∃ a code, e = .insertBefore a code ∧ ∃ r kind, m.code[r]? = some (.ret kind) ∧
      a.index = InjectionPoint.moved m.code.length r point.shift := by
  obtain ⟨sites, params, hsites, -, h⟩ := sites_of_plan h
  refine Plan.forall_of_ofSites (fun supply site hsite e left he => ?_) h
  obtain ⟨code, -, rfl⟩ := editAt_eq_ok he
  refine ⟨site.anchor, code, ?_, shifted_of_sites hselector hsites hsite⟩
  rw [placement, hselector]
  rfl

/-- Other points than returns are refused, if not for something else, and nothing is woven. -/
theorem refused_unless_at_returns (haction : cx.directive.action = .inject point true)
    (hconstructor : m.isConstructor = true) (hselector : point.selector ≠ .returns) :
    ∃ e, (Weaver.weaveMethod cx).Failed (Draft.ofMethod m) e (Draft.ofMethod m) ∧
      ∀ sites, Context.sites (Draft.ofMethod m) point = .ok sites →
        e = .unsupportedSelector .cancelledConstructor := by
  have hplan : (Weaver.plan cx (Draft.ofMethod m)).result =
      (Context.sites (Draft.ofMethod m) point).bind fun _ =>
        .error (.unsupportedSelector .cancelledConstructor) := by
    have hguard : True ∧ (Draft.ofMethod m).method.isConstructor = true ∧
        point.selector ≠ .returns := ⟨trivial, hconstructor, hselector⟩
    rw [Weaver.plan, haction]
    simp only [plan, Traced.result_bind, Traced.result_ofExcept, if_pos hguard]
    rfl
  cases hsites : Context.sites (Draft.ofMethod m) point with
  | error e =>
    rw [hsites] at hplan
    exact ⟨e, Weaver.failed_weaveMethod.2 (.inl ⟨hplan, rfl⟩), fun _ h => by cases h⟩
  | ok sites =>
    rw [hsites] at hplan
    exact ⟨_, Weaver.failed_weaveMethod.2 (.inl ⟨hplan, rfl⟩), fun _ _ => rfl⟩

/-- After all that is new in a woven method the next old instruction is as far from a return as the
point is shifted. -/
theorem next_old_of_done {n : Nat} {u : Draft}
    (haction : cx.directive.action = .inject point cancellable)
    (hselector : point.selector = .returns)
    (h : (Weaver.weaveMethod cx).Done (Draft.ofMethod m) n u)
    {before after : List (Nat × Instruction)} {entry : Nat × Instruction}
    (hsplit : u.stream.entries = before ++ entry :: after) (hnew : m.code.length ≤ entry.1) :
    ∃ r kind i, m.code[r]? = some (.ret kind) ∧
      m.code[InjectionPoint.moved m.code.length r point.shift]? = some i ∧
      after.find? (fun x => x.1 < m.code.length) =
        some (InjectionPoint.moved m.code.length r point.shift, i) := by
  have hplan : Weaver.plan cx (Draft.ofMethod m) =
      plan cx (Draft.ofMethod m) point cancellable := by
    rw [Weaver.plan, haction]
  obtain ⟨es, slots, first, hes, -, hlaid⟩ :=
    Weaver.exists_laid_of_done (fun _ hp => ready_of_plan (hplan ▸ hp)) h
  have hmem : entry ∈ Plan.layout es first 0 m.code := by
    rw [← hlaid.entries, hsplit]
    exact List.mem_append_right _ List.mem_cons_self
  obtain ⟨e, he, i, hi, hentry⟩ := Plan.exists_edit_of_mem_layout hmem hnew
  obtain ⟨a, code, rfl, r, kind, hr, ha⟩ := edits_of_plan hselector (hplan ▸ hes) e he
  have hentry : entry ∈ code.numbered (first a.index) := by
    rcases List.mem_append.1 hentry with hentry | hentry
    · exact hentry
    · obtain rfl := List.mem_singleton.1 hentry
      exact absurd hnew (Nat.not_le.2 (List.getElem?_eq_some_iff.1 hi).1)
  refine ⟨r, kind, i, hr, ha ▸ hi, ?_⟩
  rw [← ha]
  exact hlaid.next_old he hi hentry hsplit

/-- After every early return the next instruction of the old method is a return. -/
def ReturnsAtReturns (m : Method) (u : Draft) : Prop :=
  ∀ before entry after, u.stream.entries = before ++ entry :: after → m.code.length ≤ entry.1 →
    entry.2.isReturn = true →
      ∃ q kind, after.find? (fun x => x.1 < m.code.length) = some (q, .ret kind)

/-- A constructor can be cancelled only with a point at returns. The early returns come to stand
right before instructions of the constructor that are as far from its returns as the point is
shifted, and so before the returns themselves if it is not. -/
theorem constructor_cancelled_at_shifted_returns
    (haction : cx.directive.action = .inject point true) (hconstructor : m.isConstructor = true) :
    (point.selector ≠ .returns →
      ∃ e, (Weaver.weaveMethod cx).Failed (Draft.ofMethod m) e (Draft.ofMethod m) ∧
        ∀ sites, Context.sites (Draft.ofMethod m) point = .ok sites →
          e = .unsupportedSelector .cancelledConstructor) ∧
    ∀ n u, (Weaver.weaveMethod cx).Done (Draft.ofMethod m) n u →
      point.selector = .returns ∧
      (∀ before entry after, u.stream.entries = before ++ entry :: after →
        m.code.length ≤ entry.1 → ∃ r kind i, m.code[r]? = some (.ret kind) ∧
          m.code[InjectionPoint.moved m.code.length r point.shift]? = some i ∧
          after.find? (fun x => x.1 < m.code.length) =
            some (InjectionPoint.moved m.code.length r point.shift, i)) ∧
      (point.shift = 0 → ReturnsAtReturns m u) := by
  refine ⟨refused_unless_at_returns haction hconstructor, fun n u hdone => ?_⟩
  have hselector : point.selector = .returns := by
    by_contra hselector
    obtain ⟨e, hfailed, -⟩ := refused_unless_at_returns haction hconstructor hselector
    cases hdone.1.symm.trans hfailed.1
  refine ⟨hselector, fun _ _ _ => next_old_of_done haction hselector hdone,
    fun hshift before entry after hsplit hnew _ => ?_⟩
  obtain ⟨r, kind, i, hr, hi, hfind⟩ := next_old_of_done haction hselector hdone hsplit hnew
  rw [hshift, InjectionPoint.moved_zero (List.getElem?_eq_some_iff.1 hr).1] at hi hfind
  cases hr.symm.trans hi
  exact ⟨r, kind, hfind⟩

/-- Calls the constructor of its superclass. -/
def callingConstructor : Method where
  name := .init
  signature := ⟨[], none⟩
  flags := Flags.ofBits _ 0
  maxStack := 1
  maxLocals := 1
  code := [.loadLocal 0 .reference, .invoke .special ⟨.object, .init, ⟨[], none⟩⟩, .ret none]

def tokenHandler : Handler where
  reference := ⟨.object, .valueOf, ⟨[.object Settings.standard.cancellationToken], none⟩⟩
  body := ⟨.valueOf, ⟨[.object Settings.standard.cancellationToken], none⟩,
    Flags.ofBits _ staticFlag, 0, 1, [.ret none]⟩

/-- Two instructions before every return. -/
def shiftedPoint : InjectionPoint := ⟨.returns, -2, .before⟩

def shiftedContext : Context where
  settings := .standard
  cls := .number
  directive := ⟨.number, ⟨.init, none⟩, tokenHandler.reference, 0, false, .inject shiftedPoint true⟩
  handler := tokenHandler

theorem done_callingConstructor : (Weaver.weaveMethod shiftedContext).Done
    (Draft.ofMethod callingConstructor) 1
    ((Weaver.weaveMethod shiftedContext).left (Draft.ofMethod callingConstructor)) :=
  ⟨by decide +kernel, rfl⟩

theorem entries_callingConstructor :
    ∃ before, ((Weaver.weaveMethod shiftedContext).left
      (Draft.ofMethod callingConstructor)).stream.entries = before ++ (14, .ret none) ::
        [(15, .label ⟨0⟩), (0, .loadLocal 0 .reference),
          (1, .invoke .special ⟨.object, .init, ⟨[], none⟩⟩), (2, .ret none)] :=
  ⟨((Weaver.weaveMethod shiftedContext).left
      (Draft.ofMethod callingConstructor)).stream.entries.take 11, by decide +kernel⟩

theorem callingConstructor_cancelled_early : ∃ u before after,
    (Weaver.weaveMethod shiftedContext).Done (Draft.ofMethod callingConstructor) 1 u ∧
      u.stream.entries = before ++ (14, .ret none) :: after ∧
      ∃ r kind i, callingConstructor.code[r]? = some (.ret kind) ∧
        after.find? (fun x => x.1 < 3) = some (InjectionPoint.moved 3 r (-2), i) := by
  have haction : shiftedContext.directive.action = .inject shiftedPoint true := rfl
  have hconstructor : callingConstructor.isConstructor = true := rfl
  obtain ⟨before, hentries⟩ := entries_callingConstructor
  obtain ⟨-, hnext, -⟩ := (constructor_cancelled_at_shifted_returns haction hconstructor).2 1 _
    done_callingConstructor
  obtain ⟨r, kind, i, hr, -, hfind⟩ := hnext before _ _ hentries (by decide)
  exact ⟨_, before, _, done_callingConstructor, hentries, r, kind, i, hr, hfind⟩

/-- A constructor with a point at its returns, but shifted, may return before the call of its
superclass's constructor. -/
theorem not_always_returnsAtReturns : ¬ ∀ (cx : Context) (m : Method) (point : InjectionPoint)
    (n : Nat) (u : Draft), cx.directive.action = .inject point true → m.isConstructor = true →
      (Weaver.weaveMethod cx).Done (Draft.ofMethod m) n u → ReturnsAtReturns m u := by
  intro h
  obtain ⟨before, hentries⟩ := entries_callingConstructor
  obtain ⟨q, kind, hfind⟩ := h shiftedContext callingConstructor shiftedPoint 1 _ rfl rfl
    done_callingConstructor before _ _ hentries (by decide) rfl
  cases hfind

end Inject

end CodeWeaving
