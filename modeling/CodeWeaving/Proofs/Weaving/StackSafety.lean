import CodeWeaving.Proofs.Weaving.Applying

/-! Woven code is sound on the stack: by how it is planned, and so at the end of every weaving. -/
namespace CodeWeaving

open Code

/-- Every instruction that no edit replaces is still there, and each that is there is reached as
before. -/
def Plan.KeepsDepths (es : List Edit) (s t : CodeStream) (before after : StackSummary) : Prop :=
  ∀ a p, s.position a = .ok p →
    ((∀ code, .replace a code ∉ es) → ∃ q, t.position a = .ok q) ∧
    ∀ q, t.position a = .ok q → t.instructions[q]? = s.instructions[p]? ∧
      after.entryDepths[q]? = before.entryDepths[p]?

theorem Plan.keepsDepths_of_run {es : List Edit} {t : CodeStream} {code : Code} {id : Nat}
    {before after : StackSummary} (h : EditRun code.length es (CodeStream.ofList id code) t)
    (hdepths : ∀ (p q : Nat) i, t.entries[q]? = some (p, i) → p < code.length →
      after.entryDepths[q]? = before.entryDepths[p]?) :
    KeepsDepths es (CodeStream.ofList id code) t before after := by
  intro a p hp
  obtain ⟨hid, i, hentry⟩ := CodeStream.position_eq_ok_iff.1 hp
  refine ⟨fun hkept => (h.chain.names ⟨hid, List.mem_of_getElem? hentry⟩ hkept).position,
    fun q hq => ?_⟩
  obtain ⟨-, j, hentry'⟩ := CodeStream.position_eq_ok_iff.1 hq
  rw [CodeStream.entries_ofList, getElem?_numbered] at hentry
  obtain ⟨_, hp, heq⟩ := Option.map_eq_some_iff.1 hentry
  obtain ⟨hindex, rfl⟩ := Prod.mk.inj heq
  rw [← hindex, Nat.zero_add] at hentry'
  have hlt := (List.getElem?_eq_some_iff.1 hp).1
  refine ⟨?_, hdepths p q j hentry' hlt⟩
  have hold := h.mem_old (List.mem_of_getElem? hentry') (CodeStream.fresh_ofList.symm ▸ hlt)
  rw [CodeStream.entries_ofList, mem_numbered] at hold
  obtain ⟨p', hp', heq⟩ := hold
  obtain rfl : p' = p := by omega
  rw [CodeStream.instructions_ofList, hp', CodeStream.instructions, List.getElem?_map, hentry']
  rfl

namespace Weaver

variable {cx : Context} {m : Method} {p : Plan} {before s : StackSummary} {settings : Settings}
  {d u : Draft} {e : WeaveError}

theorem tighten_of_simulate (hs : d.method.code.simulate = .ok s) :
    tighten d = match boundOf? s.maxStack with
      | some bound => .ok (d.withBounds bound d.method.maxLocals)
      | none => .error (modelFault (.maxStackOverflow s.maxStack)) := by
  have hmax : d.method.code.maxStack = .ok s.maxStack := by
    rw [Code.maxStack, hs]
    rfl
  rw [tighten, Method.withStackBound, hmax]
  dsimp only
  cases boundOf? s.maxStack <;> rfl

theorem tighten_eq_ok (hs : d.method.code.simulate = .ok s) (h : tighten d = .ok u) :
    ∃ maxStack, u = d.withBounds maxStack d.method.maxLocals ∧ maxStack.toNat = s.maxStack := by
  rw [tighten_of_simulate hs] at h
  split at h
  · rename_i bound hbound
    cases h
    exact ⟨bound, rfl, boundOf?_eq_some hbound⟩
  · cases h

theorem tighten_eq_error (hs : d.method.code.simulate = .ok s) (h : tighten d = .error e) :
    ∃ depth, e = .invariant (.model (.maxStackOverflow depth)) := by
  rw [tighten_of_simulate hs] at h
  split at h
  · cases h
  · cases h
    exact ⟨_, rfl⟩

theorem coverLocals_eq_ok (h : coverLocals d = .ok u) : ∃ maxLocals,
    u = d.withBounds d.method.maxStack maxLocals ∧
      d.method.code.localsNeeded d.method.parameterLength ≤ maxLocals.toNat := by
  unfold coverLocals at h
  split at h
  · rename_i bound hbound
    cases h
    refine ⟨_, rfl, ?_⟩
    rw [← boundOf?_eq_some hbound]
    change bound.toNat ≤ (if d.method.maxLocals ≤ bound then bound else d.method.maxLocals).toNat
    simp only [UInt16.le_iff_toNat_le]
    split <;> omega
  · cases h

/-- Code in order passes every check but those of its bounds. -/
theorem check_failed (hlabels : ∃ labels, d.method.code.checkLabels = .ok labels)
    (hs : d.method.code.simulate = .ok s) (h : (check settings m).Failed d e u) :
    (∃ depth, e = .invariant (.model (.maxStackOverflow depth))) ∨ e = .tooManyLocals := by
  rcases InPlace.failed_bind.1 h with h | ⟨_, _, hdone, h⟩
  · obtain ⟨_, hlabels'⟩ := hlabels
    rw [InPlace.failed_require, hlabels'] at h
    cases h.1
  obtain ⟨-, rfl⟩ := InPlace.done_require.1 hdone
  split at h
  · rcases InPlace.failed_bind.1 h with h | ⟨_, _, -, h⟩
    · exact .inl (tighten_eq_error hs (InPlace.failed_update.1 h).1)
    · exact .inr (cause_of_coverLocals h)
  · exact .inr (cause_of_coverLocals h)

/-- What is planned can be carried out, keeps the rest of the code as it was, and passes every check
but those of its bounds. Labels, and instructions too, are told apart by 32 bits. -/
theorem planned_code_is_stack_correct (hbefore : m.code.simulate = .ok before)
    (hliteral : ∀ i ∈ m.code, i.declaresLiteral = true)
    (hlabels : ∀ i ∈ m.code, ∀ l, i.label? = some l → l.id.toNat < 2 ^ 32 - 2 - m.code.length)
    (hsize : m.code.length ≤ 2 ^ 32) (haction : cx.directive.action ≠ .overwrite)
    (hplan : (plan cx (Draft.ofMethod m)).result = .ok p) :
    ∃ es slots t after, p = .edits es slots ∧
      es.foldlM Edit.apply (Draft.ofMethod m).stream = .ok t ∧
      (p.apply.left (Draft.ofMethod m)).stream = t ∧
      (∃ labels, t.instructions.checkLabels = .ok labels) ∧
      t.instructions.simulate = .ok after ∧
      Plan.KeepsDepths es (Draft.ofMethod m).stream t before after ∧
      (∀ e, p.apply.result (Draft.ofMethod m) = .error e →
        ∃ depth, e = .invariant (.model (.maxStackOverflow depth))) ∧
      ∀ e, (weaveMethod cx).result (Draft.ofMethod m) = .error e →
        (∃ depth, e = .invariant (.model (.maxStackOverflow depth))) ∨ e = .tooManyLocals := by
  obtain ⟨es, slots, rfl, hready⟩ := ready_of_plan haction
    (by rwa [(Draft.ofMethod m).agrees]) hplan
  obtain ⟨t, ht, hrun⟩ := hready.exists_run
  obtain ⟨labels, -, hchecked, -⟩ := simulate_eq_ok hbefore
  obtain ⟨hplaced, htargets⟩ := exists_checkLabels_iff.1 ⟨labels, hchecked⟩
  obtain ⟨k, hk, hrunLabels⟩ := hready.labels
  have hcount := hk.trans hready.length_le
  have hnodup : t.instructions.placed.Nodup := by
    rw [hrun.placed_perm.nodup_iff, hrunLabels, CodeStream.instructions_ofList]
    refine nodup_placed_append_run hplaced (fun i hi l hl => ?_) (hcount.trans hsize)
    have := hlabels i hi l hl
    omega
  obtain ⟨after, hafter, -⟩ := hrun.exists_simulate hbefore hnodup
  obtain ⟨labels', -, hchecked', -⟩ := simulate_eq_ok hafter
  have hfailed {e : WeaveError} {u : Draft}
      (h : (Plan.edits es slots).apply.Failed (Draft.ofMethod m) e u) :
      ∃ depth, e = .invariant (.model (.maxStackOverflow depth)) :=
    Plan.raise_eq_error ((hready.apart.failed_apply ht).1 h).1
  refine ⟨es, slots, t, after, rfl, ht, hready.apart.stream_left ht, ⟨labels', hchecked'⟩, hafter,
    Plan.keepsDepths_of_run hrun fun _ _ _ => hrun.entryDepths_eq hbefore hafter,
    fun e he => hfailed ⟨he, rfl⟩, fun e he => ?_⟩
  rcases failed_weaveMethod.1 ⟨he, rfl⟩ with ⟨h, -⟩ | ⟨_, h, hlate⟩
  · cases hplan.symm.trans h
  · cases hplan.symm.trans h
    rcases hlate with h | ⟨n, edited, happly, hcheck⟩
    · exact .inl (hfailed h)
    · obtain ⟨-, happly⟩ := (hready.apart.done_apply ht).1 happly
      obtain ⟨_, _, rfl, -⟩ := Plan.raise_eq_ok happly
      exact check_failed ⟨labels', hchecked'⟩ hafter hcheck

/-- Branches around one of its two returns. -/
def guardedMethod : Method where
  name := .valueOf
  signature := ⟨[.int], some .int⟩
  flags := Flags.ofBits _ staticFlag
  maxStack := 1
  maxLocals := 1
  code := [.loadLocal 0 .int, .branch .ifZero ⟨3⟩, .pushConstant (.int 7), .ret (some .int),
    .label ⟨3⟩, .pushConstant (.int 0), .ret (some .int)]

def guardHandler : Handler where
  reference := ⟨.number, .valueOf, ⟨[.object Settings.standard.returnableToken], none⟩⟩
  body := ⟨.valueOf, ⟨[.object Settings.standard.returnableToken], none⟩, Flags.ofBits _ 0, 0, 2,
    [.ret none]⟩

/-- Hands every result to a handler that may cancel and give another. -/
def guardDirective : Directive :=
  ⟨.object, ⟨.valueOf, none⟩, guardHandler.reference, 0, false, .inject ⟨.returns, 0, .before⟩ true⟩

def guardContext : Context := ⟨.standard, .object, guardDirective, guardHandler⟩

theorem simulate_guardedMethod : guardedMethod.code.simulate =
    .ok ⟨1, [some 0, some 1, some 0, some 1, some 0, some 0, some 1]⟩ := by decide +kernel

theorem guardedMethod_planned_is_stack_correct :
    (plan guardContext (Draft.ofMethod guardedMethod)).result.isOk = true ∧
    ∃ es t before after, es.foldlM Edit.apply (Draft.ofMethod guardedMethod).stream = .ok t ∧
      guardedMethod.code.simulate = .ok before ∧ t.instructions.simulate = .ok after ∧
      Plan.KeepsDepths es (Draft.ofMethod guardedMethod).stream t before after := by
  have hplan : (plan guardContext (Draft.ofMethod guardedMethod)).result.isOk = true := by
    decide +kernel
  refine ⟨hplan, ?_⟩
  cases hp : (plan guardContext (Draft.ofMethod guardedMethod)).result with
  | error e =>
    rw [hp] at hplan
    cases hplan
  | ok p =>
    obtain ⟨es, _, t, after, -, ht, -, -, hafter, hkeeps, -⟩ := planned_code_is_stack_correct
      simulate_guardedMethod (by decide) (by decide +kernel) (by decide) (by decide) hp
    exact ⟨es, t, _, after, ht, simulate_guardedMethod, hafter, hkeeps⟩

end Weaver

namespace Overwrite

variable {cx : Context} {m : Method} {p : Plan}

theorem flowsAs_retarget (source target : ClassName) (i : Instruction) :
    (retarget source target i).FlowsAs i := by
  cases i with
  | invoke kind m =>
    simp only [retarget]
    split <;> exact ⟨rfl, rfl, rfl, rfl⟩
  | field access f =>
    simp only [retarget]
    split
    · cases access <;> exact ⟨rfl, rfl, rfl, rfl⟩
    · exact ⟨rfl, rfl, rfl, rfl⟩
  | _ => exact ⟨rfl, rfl, rfl, rfl⟩

theorem declaresLiteral_retarget (source target : ClassName) (i : Instruction) :
    (retarget source target i).declaresLiteral = i.declaresLiteral := by
  cases i <;> rfl

theorem plan_eq_ok (h : (plan cx m).result = .ok p) : cx.handler.body.code ≠ [] ∧
    p = .newBody (cx.handler.body.code.map (retarget cx.handler.reference.owner cx.cls))
      cx.handler.body.maxStack
      (max cx.handler.body.maxLocals (UInt16.ofNat m.parameterLength)) := by
  simp only [plan, Traced.unless_fail_eq_ok] at h
  obtain ⟨-, hne, h⟩ := h
  cases h
  exact ⟨by simpa using hne, rfl⟩

end Overwrite

/-- Depths are in order and within the bound, so are the locals, and short literals declare what
they push. -/
structure Method.Sound (m : Method) : Prop where
  stack : ∃ s, m.code.simulate = .ok s ∧ s.maxStack ≤ m.maxStack.toNat
  locals : m.code.localsNeeded m.parameterLength ≤ m.maxLocals.toNat
  literals : ∀ i ∈ m.code, i.declaresLiteral = true

namespace Weaver

variable {cx : Context} {m : Method} {settings : Settings} {s : StackSummary} {d u v : Draft}
  {n : Nat}

theorem done_check (h : (check settings m).Done d ⟨⟩ v) :
    (∃ labels, d.method.code.checkLabels = .ok labels) ∧
      ∃ u, (d = u ∨ tighten d = .ok u) ∧ coverLocals u = .ok v := by
  obtain ⟨_, _, hdone, h⟩ := InPlace.done_bind.1 h
  obtain ⟨⟨labels, hlabels⟩, rfl⟩ := InPlace.done_require.1 hdone
  refine ⟨?_, ?_⟩
  · cases hcheck : d.method.code.checkLabels with
    | ok labels => exact ⟨labels, rfl⟩
    | error e =>
      rw [hcheck] at hlabels
      cases hlabels
  · split at h
    · obtain ⟨_, u, htighten, hcover⟩ := InPlace.done_bind.1 h
      exact ⟨u, .inr (InPlace.done_update.1 htighten), InPlace.done_update.1 hcover⟩
    · exact ⟨_, .inl rfl, InPlace.done_update.1 h⟩

/-- Code in order that has passed its checks is sound. -/
theorem sound_of_check (hs : d.method.code.simulate = .ok s)
    (hmax : s.maxStack ≤ d.method.maxStack.toNat)
    (hliteral : ∀ i ∈ d.method.code, i.declaresLiteral = true)
    (h : (check settings m).Done d ⟨⟩ v) : v.method.Sound := by
  obtain ⟨-, u, htightened, hcovered⟩ := done_check h
  obtain ⟨maxLocals, rfl, hlocals⟩ := coverLocals_eq_ok hcovered
  rcases htightened with rfl | htightened
  · exact ⟨⟨s, hs, hmax⟩, hlocals, hliteral⟩
  · obtain ⟨maxStack, rfl, hbound⟩ := tighten_eq_ok hs htightened
    exact ⟨⟨s, hs, hbound.ge⟩, hlocals, hliteral⟩

theorem sound_of_edits {p : Plan} (hm : m.Sound) (haction : cx.directive.action ≠ .overwrite)
    (hplan : (plan cx (Draft.ofMethod m)).result = .ok p)
    (happly : p.apply.Done (Draft.ofMethod m) n u)
    (h : (check settings m).Done u ⟨⟩ v) : v.method.Sound := by
  obtain ⟨before, hbefore, hmax⟩ := hm.stack
  obtain ⟨es, slots, rfl, hready⟩ := ready_of_plan haction
    (by rw [(Draft.ofMethod m).agrees]; exact hm.literals) hplan
  obtain ⟨t, ht, hrun⟩ := hready.exists_run
  obtain ⟨-, hraise⟩ := (hready.apart.done_apply ht).1 happly
  obtain ⟨maxStack, maxLocals, rfl, hbound⟩ := Plan.raise_eq_ok hraise
  obtain ⟨hplaced, -⟩ := exists_checkLabels_iff.1 (done_check h).1
  obtain ⟨after, hafter, hpeak⟩ := hrun.exists_simulate hbefore hplaced
  refine sound_of_check hafter ?_ ?_ h
  · calc after.maxStack ≤ before.maxStack + Plan.peak es := hpeak
      _ ≤ m.maxStack.toNat + Plan.peak es := Nat.add_le_add_right hmax _
      _ = maxStack.toNat := hbound.symm
  · exact hrun.declaresLiteral (by rw [CodeStream.instructions_ofList]; exact hm.literals)

theorem sound_of_newBody {p : Plan} (hhandler : cx.handler.body.Sound)
    (haction : cx.directive.action = .overwrite)
    (hplan : (plan cx (Draft.ofMethod m)).result = .ok p)
    (happly : p.apply.Done (Draft.ofMethod m) n u)
    (h : (check settings m).Done u ⟨⟩ v) : v.method.Sound := by
  simp only [plan, haction] at hplan
  obtain ⟨hne, rfl⟩ := Overwrite.plan_eq_ok hplan
  obtain ⟨hcode, hmaxStack⟩ := Plan.code_of_newBody happly
  obtain ⟨s, hs, hmax⟩ := hhandler.stack
  obtain ⟨s', hs', hle⟩ := exists_simulate_map (Overwrite.flowsAs_retarget _ _) hne hs
  refine sound_of_check (hcode ▸ hs') (hmaxStack ▸ hle.trans hmax) ?_ h
  rw [hcode]
  intro i hi
  obtain ⟨j, hj, rfl⟩ := List.mem_map.1 hi
  rw [Overwrite.declaresLiteral_retarget]
  exact hhandler.literals j hj

/-- Weaving into a sound method, with a sound handler, makes a sound method. -/
theorem sound_of_weaveMethod (hm : m.Sound) (hhandler : cx.handler.body.Sound)
    (h : (weaveMethod cx).Done (Draft.ofMethod m) n v) : v.method.Sound := by
  obtain ⟨p, u, hplan, happly, hcheck⟩ := done_weaveMethod.1 h
  by_cases haction : cx.directive.action = .overwrite
  · exact sound_of_newBody hhandler haction hplan happly hcheck
  · exact sound_of_edits hm haction hplan happly hcheck

/-- Sound methods are sound after any weaving with sound handlers, checked or not. -/
theorem weave_sound {handlers : HandlerProvider} {c : ClassDefinition} {ds : List Directive}
    (hclass : ∀ m ∈ c.methods, m.Sound)
    (hhandlers : ∀ reference body, handlers reference = some body → body.Sound) :
    ∀ m ∈ (weave settings handlers c ds).cls.methods, m.Sound :=
  weave_preserves (fun _ _ _ _ hbody hm => sound_of_weaveMethod hm (hhandlers _ _ hbody)) hclass

def guardedClass : ClassDefinition :=
  { ClassDefinition.ofName .object with methods := [guardedMethod] }

def guardProvider : HandlerProvider := fun reference =>
  if reference = guardHandler.reference then some guardHandler.body else none

theorem guardedClass_woven_sound :
    (weave .standard guardProvider guardedClass [guardDirective]).outcomes.map Outcome.status =
      [.applied] ∧
    ∀ m ∈ (weave .standard guardProvider guardedClass [guardDirective]).cls.methods, m.Sound := by
  have hbody : guardHandler.body.code.simulate = .ok ⟨0, [some 0]⟩ := by decide +kernel
  refine ⟨by decide +kernel, weave_sound (fun m hm => ?_) fun reference body h => ?_⟩
  · cases List.mem_singleton.1 hm
    exact ⟨⟨_, simulate_guardedMethod, by decide⟩, by decide, by decide⟩
  · unfold guardProvider at h
    split at h <;> cases h
    exact ⟨⟨_, hbody, by decide⟩, by decide, by decide⟩

end Weaver

end CodeWeaving
