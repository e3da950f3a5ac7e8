import CodeWeaving.Proofs.Weaving.CopiedBodies
import CodeWeaving.Proofs.Weaving.EarlyReturns
import Mathlib.Data.List.Pairwise

/-! Labels that injected calls bring with them: each in one of them only, and new to the method.
Where sums are checked the program may end instead, because counting has come past the last label;
where they are not, counting may come round to a label that the method has. -/
namespace CodeWeaving

namespace Traced

variable {α β : Type} {x : Traced α} {f : α → Traced β} {a : α} {r : Except WeaveError α}

theorem overflows_bind (h : x.result = .ok a) : overflows (x >>= f).journal =
    (overflows x.journal || overflows (f a).journal) := by
  rw [← overflows_append]
  show overflows (Traced.bind x f).journal = _
  rw [Traced.bind, h]

theorem overflows_pure (a : α) : overflows (pure a : Traced α).journal = false := rfl

theorem overflows_noteOverflow (b : Bool) : overflows (noteOverflow b).journal = b := by
  cases b <;> rfl

theorem checked_eq_none : x.checked = none ↔ overflows x.journal = true := by
  unfold checked
  split <;> simp_all

theorem checked_eq_some : x.checked = some r ↔ ¬ overflows x.journal = true ∧ x.result = r := by
  unfold checked
  split <;> simp_all

end Traced

/-- Labels that a plan places, edit by edit. -/
def Plan.placed : Plan → List Label
  | .edits es _ => es.flatMap fun e => e.code.placed
  | .newBody code _ _ => code.placed

namespace Plan.Ready

variable {s : CodeStream} {first l : Label} {es : List Edit} {e f : Edit}

theorem mem_placed_of_mem_targets (h : Ready s first es) (he : e ∈ es)
    (hl : l ∈ e.code.targets) : l ∈ e.code.placed := by
  obtain ⟨i, -, hsuits⟩ := h.sites e he
  exact hsuits.targets_subset l hl

/-- Where no label is placed twice, each is branched to in the one edit that places it. -/
theorem eq_of_mem_targets (h : Ready s first es)
    (hnodup : (es.flatMap fun e => e.code.placed).Nodup) (he : e ∈ es) (hf : f ∈ es)
    (hplaced : l ∈ e.code.placed) (htarget : l ∈ f.code.targets) : f = e := by
  by_contra hne
  have hsymm : Std.Symm (Function.onFun List.Disjoint fun e : Edit => e.code.placed) :=
    ⟨fun _ _ hdisjoint => hdisjoint.symm⟩
  have hdisjoint : List.Disjoint f.code.placed e.code.placed :=
    (List.nodup_flatMap.1 hnodup).2.forall hf he hne
  exact hdisjoint (h.mem_placed_of_mem_targets hf htarget) hplaced

end Plan.Ready

namespace Inject

/-- The labels that edits of code bring with them are all different and new to the code, and each is
branched to only in the edit that places it. -/
structure OwnLabels (code : Code) (es : List Edit) : Prop where
  distinct : (es.flatMap fun e => e.code.placed).Nodup
  new : ∀ e ∈ es, ∀ l ∈ e.code.placed, l ∉ code.labels
  own : ∀ e ∈ es, ∀ f ∈ es, ∀ l ∈ e.code.placed, l ∈ f.code.targets → f = e

section Overflow

variable {cx : Context} {m : Method} {d : Draft} {point : InjectionPoint} {cancellable : Bool}
  {params : List Supplied} {supply left : Supply} {site : Site} {sites : List Site} {e : Edit}
  {es : List Edit} {p : Plan}

/-- With the label that it takes, a call finds the one after it, unless that is the last one. -/
theorem overflows_editAt (hparams : params = cx.handler.parameters.map (supplied cx.settings))
    (h : (editAt cx m point cancellable params supply site).result = .ok (e, left)) :
    overflows (editAt cx m point cancellable params supply site).journal = true ↔
      Label.last ∈ e.code.placed := by
  obtain ⟨code, hcode, rfl⟩ := editAt_eq_ok h
  have hplaced : (Edit.insert (placement point) site.anchor code).code.placed = code.placed := by
    cases placement point <;> rfl
  have hjournal : overflows (editAt cx m point cancellable params supply site).journal =
      (canCancel cancellable params && supply.label.next?.isNone) := by
    unfold editAt at h ⊢
    split
    · rename_i hguard
      rw [if_pos hguard] at h
      cases h
    · rw [Traced.overflows_bind rfl, Traced.overflows_bind hcode, Traced.overflows_bind rfl,
        Traced.overflows_noteOverflow, Traced.overflows_pure, Bool.or_false]
      rfl
  rw [hjournal, hplaced, Bool.and_eq_true, Option.isNone_iff_eq_none, Label.next?_eq_none]
  rcases (codeFor_eq_ok hparams hcode).2 with ⟨hnever, hnone, -⟩ | ⟨hcan, hone, -⟩
  · simp [hnever, hnone]
  · simp [hcan, hone, eq_comm]

theorem overflows_editSites
    (hparams : params = cx.handler.parameters.map (supplied cx.settings))
    (h : (Plan.editSites (editAt cx m point cancellable params) supply sites).result =
      .ok (es, left)) :
    overflows (Plan.editSites (editAt cx m point cancellable params) supply sites).journal = true ↔
      Label.last ∈ es.flatMap fun e => e.code.placed := by
  induction sites generalizing supply es left with
  | nil =>
    cases h
    rw [Plan.editSites, Traced.overflows_pure]
    simp
  | cons site sites ih =>
    simp only [Plan.editSites, Traced.bind_eq_ok] at h
    obtain ⟨⟨e, between⟩, he, ⟨rest, left'⟩, hrest, h⟩ := h
    cases h
    rw [Plan.editSites, Traced.overflows_bind he, Traced.overflows_bind hrest,
      Traced.overflows_pure, Bool.or_false, Bool.or_eq_true, overflows_editAt hparams he, ih hrest,
      List.flatMap_cons, List.mem_append]

/-- A sum overflows exactly if the last label is one of the method's or one of the plan's. -/
theorem overflows_plan (h : (plan cx d point cancellable).result = .ok p) :
    overflows (plan cx d point cancellable).journal = true ↔
      Label.last ∈ d.method.code.labels ∨ Label.last ∈ p.placed := by
  obtain ⟨sites, params, hsites, hparams, h'⟩ := sites_of_plan h
  obtain ⟨⟨es, left⟩, hes, hp⟩ := Traced.bind_eq_ok.1 h'
  cases hp
  have hjournal : overflows (plan cx d point cancellable).journal =
      (d.method.freeLabel?.isNone || overflows (Plan.editSites
        (editAt cx d.method point cancellable params) (.ofMethod d.method) sites).journal) := by
    have hrest : overflows (Plan.ofSites d.method sites
        (editAt cx d.method point cancellable params)).journal = overflows (Plan.editSites
          (editAt cx d.method point cancellable params) (.ofMethod d.method) sites).journal := by
      rw [Plan.ofSites, Traced.overflows_bind hes, Traced.overflows_pure, Bool.or_false]
    simp only [plan, Traced.bind_eq_ok, Traced.result_ofExcept, Traced.unless_fail_eq_ok] at h
    obtain ⟨_, hsites', hguard, -⟩ := h
    cases hsites.symm.trans hsites'
    rw [plan, Traced.overflows_bind hsites, if_neg hguard, Traced.overflows_bind hparams]
    split
    · rw [Traced.overflows_bind rfl, Traced.overflows_bind rfl, Traced.overflows_noteOverflow,
        hrest]
      rfl
    · rw [Traced.overflows_bind rfl, Traced.overflows_noteOverflow, hrest]
      rfl
  rw [hjournal, Bool.or_eq_true, overflows_editSites (params_of_classify hparams) hes,
    Option.isNone_iff_eq_none]
  exact or_congr Code.freeLabel?_eq_none .rfl

end Overflow

section Labels

variable {m : Method} {cx : Context} {point : InjectionPoint} {cancellable : Bool} {p : Plan}
  (h : (plan cx (Draft.ofMethod m) point cancellable).result = .ok p)

include h

/-- The labels of a plan are counted up from the first free one. -/
theorem exists_run_of_plan : ∃ es slots, p = .edits es slots ∧
    Plan.Ready (Draft.ofMethod m).stream m.code.freeLabel es ∧ p.placed.length ≤ m.code.length ∧
    p.placed = m.code.freeLabel.run p.placed.length := by
  obtain ⟨es, slots, rfl, hready⟩ := ready_of_plan h
  obtain ⟨k, hk, hlabels⟩ := hready.labels
  have hplaced : (Plan.edits es slots).placed = m.code.freeLabel.run k := hlabels
  rw [hplaced, Label.length_run]
  exact ⟨es, slots, rfl, hready, hk.trans hready.length_le, rfl⟩

theorem checked_plan_eq_none : (plan cx (Draft.ofMethod m) point cancellable).checked = none ↔
    Label.last ∈ m.code.labels ∨ Label.last ∈ p.placed :=
  Traced.checked_eq_none.trans (overflows_plan h)

theorem new_iff_of_plan : (∀ l ∈ p.placed, l ∉ m.code.labels) ↔
    ∀ l ∈ m.code.labels, p.placed.length ≤ m.code.freeLabel.distance l := by
  obtain ⟨-, -, -, -, -, hrun⟩ := exists_run_of_plan h
  generalize p.placed.length = k at *
  simp only [hrun, Label.mem_run, ← Nat.not_lt]
  exact forall_congr' fun l => imp_not_comm

/-- No plan that a program with checked sums makes has a label twice or one of the method's. -/
theorem ownLabels_of_checked {es : List Edit} {slots : SlotAllocator} (hp : p = .edits es slots)
    (hchecked : (plan cx (Draft.ofMethod m) point cancellable).checked = some (.ok p)) :
    OwnLabels m.code es := by
  obtain ⟨_, _, heq, hready, -, hrun⟩ := exists_run_of_plan h
  cases hp.symm.trans heq
  have hnone := (checked_plan_eq_none h).not.1 (by simp [hchecked])
  obtain ⟨hcode, hlast⟩ := not_or.1 hnone
  have hdistance : p.placed.length ≤ m.code.freeLabel.distance Label.last := by
    rwa [hrun, Label.mem_run, Nat.not_lt] at hlast
  have hnodup : p.placed.Nodup := by
    rw [hrun, Label.nodup_run]
    exact hdistance.trans (UInt32.toNat_lt _).le
  have hnew := (new_iff_of_plan h).2 (Code.le_distance_of_last hcode (hrun ▸ hlast))
  subst hp
  exact ⟨hnodup, fun e he l hl => hnew l (List.mem_flatMap_of_mem he hl),
    fun e he f hf l hl htarget => hready.eq_of_mem_targets hnodup he hf hl htarget⟩

/-- As long as there are labels left above those of the method, nothing overflows. -/
theorem checked_plan_of_room (hlength : p.placed.length < 2 ^ 32)
    (hroom : ∀ l ∈ m.code.labels, l.id.toNat + p.placed.length < 2 ^ 32 - 1) :
    (plan cx (Draft.ofMethod m) point cancellable).checked = some (.ok p) := by
  obtain ⟨-, -, -, -, -, hrun⟩ := exists_run_of_plan h
  refine Traced.checked_eq_some.2 ⟨fun hoverflows => ?_, h⟩
  rcases (overflows_plan h).1 hoverflows with hcode | hplaced
  · have hmax : Label.last.id.toNat = 2 ^ 32 - 1 := rfl
    have := hroom _ hcode
    omega
  · rw [hrun] at hplaced
    exact Code.last_notMem_run hlength hroom hplaced

end Labels

/-- What is known of the labels that a plan of calls places: at most one for each instruction. Where
sums are checked the program ends over it exactly if the last label is the method's or would be the
plan's, so that the plans which are made have labels of their own. Where they are not, the labels
are all different and branched to only where they are placed if there are labels enough, and new
exactly if as many are free before counting comes round to one of the method's. -/
structure PlannedLabels (m : Method) (x : Traced Plan) (p : Plan) (es : List Edit) : Prop where
  few : p.placed.length ≤ m.code.length
  ends : x.checked = none ↔ Label.last ∈ m.code.labels ∨ Label.last ∈ p.placed
  made : p.placed.length < 2 ^ 32 →
    (∀ l ∈ m.code.labels, l.id.toNat + p.placed.length < 2 ^ 32 - 1) → x.checked = some (.ok p)
  checked : x.checked = some (.ok p) → OwnLabels m.code es
  distinct : p.placed.Nodup ↔ p.placed.length ≤ 2 ^ 32
  own : p.placed.length ≤ 2 ^ 32 → ∀ e ∈ es, ∀ f ∈ es, ∀ l ∈ e.code.placed,
    l ∈ f.code.targets → f = e
  new : (∀ l ∈ p.placed, l ∉ m.code.labels) ↔
    ∀ l ∈ m.code.labels, p.placed.length ≤ m.code.freeLabel.distance l
  room : (∀ l ∈ m.code.labels, l.id.toNat + p.placed.length < 2 ^ 32) →
    ∀ l ∈ p.placed, l ∉ m.code.labels

/-- The first free label is above all others. The program finds one unless a label is the last that
there is: over that it ends where sums are checked, and comes round to the first label where they
are not. The labels of a plan of calls are counted up from there. -/
theorem injected_labels (m : Method) :
    (m.code.freeLabel? = none ↔ Label.last ∈ m.code.labels) ∧
    (∀ l, m.code.freeLabel? = some l → ∀ k ∈ m.code.labels, k.id < l.id) ∧
    ((∀ l ∈ m.code.labels, l.id < m.code.freeLabel.id) ↔ Label.last ∉ m.code.labels) ∧
    ∀ cx point cancellable p, (plan cx (Draft.ofMethod m) point cancellable).result = .ok p →
      ∃ es slots, p = .edits es slots ∧
        PlannedLabels m (plan cx (Draft.ofMethod m) point cancellable) p es := by
  refine ⟨Code.freeLabel?_eq_none, fun l hl => ?_, Code.lt_freeLabel_iff,
    fun cx point cancellable p h => ?_⟩
  · obtain ⟨hlast, rfl⟩ := Code.freeLabel?_eq_some.1 hl
    exact Code.lt_freeLabel_iff.2 hlast
  obtain ⟨es, slots, hp, hready, hlength, hrun⟩ := exists_run_of_plan h
  have hdistinct : p.placed.Nodup ↔ p.placed.length ≤ 2 ^ 32 := by
    rw [hrun, Label.nodup_run, Label.length_run]
  refine ⟨es, slots, hp, ?_⟩
  exact {
    few := hlength
    ends := checked_plan_eq_none h
    made := checked_plan_of_room h
    checked := ownLabels_of_checked h hp
    distinct := hdistinct
    own := fun hle e he f hf l hl htarget => by
      subst hp
      exact hready.eq_of_mem_targets (hdistinct.2 hle) he hf hl htarget
    new := new_iff_of_plan h
    room := fun hroom => (new_iff_of_plan h).2 (Code.le_distance_freeLabel hroom) }

/-- Injects calls that may cancel. -/
def labelContext : Context where
  settings := .standard
  cls := .number
  directive := ⟨.number, ⟨.valueOf, none⟩, tokenHandler.reference, 0, false,
    .inject (.ofSelector .head) true⟩
  handler := tokenHandler

theorem exists_plan_of_placed {code : Code} {point : InjectionPoint} {labels : List Label}
    (h : ((plan labelContext (Draft.ofMethod (Weaver.plainMethod code)) point true).result.map
      Plan.placed) = .ok labels) :
    ∃ p, (plan labelContext (Draft.ofMethod (Weaver.plainMethod code)) point true).result = .ok p ∧
      p.placed = labels :=
  map_eq_ok.1 h

/-- Two returns, and only two labels between those there are and the last. -/
theorem plainMethod_labels_new :
    let code : Code := [.label ⟨0⟩, .ret none, .label ⟨4294967292⟩, .ret none]
    let x :=
      plan labelContext (Draft.ofMethod (Weaver.plainMethod code)) (.ofSelector .returns) true
    code.freeLabel? = some ⟨4294967293⟩ ∧ (∀ l ∈ code.labels, l.id < 4294967293) ∧
      ∃ p es slots, x.result = .ok p ∧ p = .edits es slots ∧
        p.placed = [⟨4294967293⟩, ⟨4294967294⟩] ∧ p.placed.length < 2 ^ 32 ∧
        (∀ l ∈ code.labels, l.id.toNat + p.placed.length < 2 ^ 32 - 1) ∧
        x.checked = some (.ok p) ∧ OwnLabels code es ∧ ∀ l ∈ p.placed, l ∉ code.labels := by
  intro code x
  obtain ⟨-, habove, -, hplan⟩ := injected_labels (Weaver.plainMethod code)
  have hfree : code.freeLabel? = some ⟨4294967293⟩ := by decide +kernel
  obtain ⟨p, hp, hplaced⟩ := @exists_plan_of_placed code (.ofSelector .returns)
    [⟨4294967293⟩, ⟨4294967294⟩] (by decide +kernel)
  obtain ⟨es, slots, hedits, hlabels⟩ := hplan _ _ _ _ hp
  have hlength : p.placed.length < 2 ^ 32 := by
    rw [hplaced]
    decide
  have hroom : ∀ l ∈ code.labels, l.id.toNat + p.placed.length < 2 ^ 32 - 1 := by
    rw [hplaced]
    decide
  have hchecked := hlabels.made hlength hroom
  exact ⟨hfree, habove _ hfree, p, es, slots, hp, hedits, hplaced, hlength, hroom, hchecked,
    hlabels.checked hchecked, hlabels.room fun l hl => (hroom l hl).trans (by decide)⟩

/-- Has the first label and the last. -/
def brimmingClass : ClassDefinition :=
  { ClassDefinition.ofName .number with
    methods := [Weaver.plainMethod [.label ⟨0⟩, .label .last, .ret none]] }

/-- After the last label there is none: the program ends, or goes on with the first one again, which
the method may have. -/
theorem not_always_new :
    (¬ ∀ code : Code, ∃ free, code.freeLabel? = some free ∧ ∀ l ∈ code.labels, l.id < free.id) ∧
    (¬ ∀ code : Code, ∀ l ∈ code.labels, l.id < code.freeLabel.id) ∧
    (¬ ∀ cx m point cancellable p,
      (plan cx (Draft.ofMethod m) point cancellable).result = .ok p →
        ∀ l ∈ p.placed, l ∉ m.code.labels) ∧
    (Weaver.weave .standard (fun _ => some tokenHandler.body) brimmingClass
      [labelContext.directive]).checked.isNone = true := by
  refine ⟨fun h => ?_, fun h => ?_, fun h => ?_, by decide +kernel⟩
  · obtain ⟨free, hfree, -⟩ := h [.label .last]
    cases hfree
  · exact absurd (h [.label .last] .last (by decide)) (by decide)
  · obtain ⟨p, hp, hplaced⟩ := @exists_plan_of_placed [.label ⟨0⟩, .label .last, .ret none]
      (.ofSelector .head) [⟨0⟩] (by decide +kernel)
    exact h _ _ _ _ p hp ⟨0⟩ (by rw [hplaced]; decide) (by decide)

end Inject

end CodeWeaving
