import CodeWeaving.Proofs.Format.ClassRoundTrip
import CodeWeaving.Proofs.Weaving.Footprint
import CodeWeaving.Proofs.Weaving.Literals

/-! The life of a class that is woven, saved and loaded in any order: the first weaving is the only
one. -/
namespace CodeWeaving

/-- What is done with a class. -/
inductive Deed where
  | weave (settings : Settings) (handlers : HandlerProvider) (ds : List Directive)
  | weaveRegistered (settings : Settings) (handlers : HandlerProvider) (r : Registry)
  /-- The class is saved as JSON and loaded from what a library reads where it printed that. -/
  | reload (library : Json → Option Json)

namespace Deed

def isWeaving : Deed → Bool
  | .weave .. | .weaveRegistered .. => true
  | .reload _ => false

/-- The directives that a class of a name is handed. -/
def handed (name : ClassName) : Deed → List Directive
  | .weave _ _ ds => ds
  | .weaveRegistered _ _ r => r.directivesFor name
  | .reload _ => []

/-- What holds of all literals of handlers. -/
def Literals (P : Constant → Prop) : Deed → Prop
  | .weave _ handlers _ | .weaveRegistered _ handlers _ =>
    ∀ reference body, handlers reference = some body → body.Literals P
  | .reload _ => True

/-- What is printed is read back, but for floats that JSON has no numbers for. -/
def Faithful (c : ClassDefinition) : Deed → Prop
  | .reload library => ∃ v, library c.toJson = some v ∧ c.toJson.Reread v
  | _ => True

/-- The class that there is then, if one can be loaded, and the outcomes. -/
def perform (c : ClassDefinition) : Deed → Option (ClassDefinition × List Outcome)
  | .weave settings handlers ds =>
    let woven := Weaver.weave settings handlers c ds
    some (woven.cls, woven.outcomes)
  | .weaveRegistered settings handlers r =>
    let woven := Weaver.weaveRegistered settings handlers c r
    some (woven.cls, woven.outcomes)
  | .reload library => do
    let v ← library c.toJson
    let c ← (ClassDefinition.ofJson v).toOption
    pure (c, [])

/-- Deeds one after another, from a class to what it has become. -/
inductive Trace : ClassDefinition → List Deed → ClassDefinition → Prop where
  | nil {c : ClassDefinition} : Trace c [] c
  | cons {c c₁ c₂ : ClassDefinition} {deed : Deed} {deeds : List Deed} {outcomes : List Outcome}
      (hfaithful : deed.Faithful c) (hdeed : deed.perform c = some (c₁, outcomes))
      (htrace : Trace c₁ deeds c₂) : Trace c (deed :: deeds) c₂

end Deed

/-- The outcome of a directive that comes too late, by its place. -/
def Outcome.late (name : ClassName) (placed : Directive × Nat) : Outcome :=
  ⟨placed.2, placed.1, [], 0, .failed (.alreadyWoven name)⟩

theorem Constant.Made.finite {c : Constant} (h : c.Made) : c.Finite := by
  cases h with
  | int n => trivial
  | string s => trivial
  | zero k =>
    cases k with
    | float => exact (by decide +kernel : (0 : Float32).isFinite = true)
    | double => exact (by decide +kernel : (0 : Float).isFinite = true)
    | _ => trivial

namespace Weaver

variable {settings : Settings} {handlers : HandlerProvider} {c c₁ c₂ : ClassDefinition}
  {ds : List Directive} {deed : Deed} {deeds : List Deed}

theorem name_weave : (weave settings handlers c ds).cls.name = c.name := by
  rw [cls_weave]
  exact (turns_footprint le_rfl).1.name

theorem woven_weave : (weave settings handlers c ds).cls.woven = true := by
  rw [cls_weave]
  rfl

theorem weave_of_woven (hc : c.woven = true) : (weave settings handlers c ds).cls = c ∧
    (weave settings handlers c ds).outcomes = ds.zipIdx.map (Outcome.late c.name) := by
  rw [weave, if_pos hc]
  exact ⟨rfl, rfl⟩

theorem finite_weave (hfinite : c.Literals Constant.Finite)
    (hhandlers : ∀ reference body, handlers reference = some body →
      body.Literals Constant.Finite) :
    (weave settings handlers c ds).cls.Literals Constant.Finite :=
  weave_preserves (fun _ _ _ _ hbody hm => literals_of_weaveMethod (fun _ => Constant.Made.finite)
    hm (hhandlers _ _ hbody)) hfinite

/-- What has become of a class that was not woven, by whether it has been handed over since. -/
structure Kept (c : ClassDefinition) (handed : Bool) (c₁ : ClassDefinition) : Prop where
  name : c₁.name = c.name
  woven : c₁.woven = handed
  finite : c₁.Literals Constant.Finite
  same : handed = false → c₁ = c

theorem Kept.weave {handed : Bool} (h : Kept c handed c₁)
    (hhandlers : ∀ reference body, handlers reference = some body →
      body.Literals Constant.Finite) : Kept c true (weave settings handlers c₁ ds).cls :=
  ⟨name_weave.trans h.name, woven_weave, finite_weave h.finite hhandlers,
    (by cases ·)⟩

/-- Nothing stands in the way of the next deed, and a class that has been handed over before stays
as it is. -/
theorem perform_of_kept {handed : Bool} (h : Kept c handed c₁) (hfaithful : deed.Faithful c₁) :
    ∃ c₂ outcomes, deed.perform c₁ = some (c₂, outcomes) ∧
      (deed.isWeaving = false → c₂ = c₁ ∧ outcomes = []) ∧
      (handed = true →
        c₂ = c₁ ∧ outcomes = (deed.handed c.name).zipIdx.map (Outcome.late c.name)) := by
  rw [← h.name]
  cases deed with
  | weave settings handlers ds =>
    exact ⟨_, _, rfl, (by cases ·),
      fun hhanded => weave_of_woven (h.woven.trans hhanded)⟩
  | weaveRegistered settings handlers r =>
    exact ⟨_, _, rfl, (by cases ·),
      fun hhanded => weave_of_woven (h.woven.trans hhanded)⟩
  | reload library =>
    obtain ⟨v, hread, hv⟩ := hfaithful
    have hloaded := Recovers.classDefinition h.finite v hv
    refine ⟨c₁, [], ?_, fun _ => ⟨rfl, rfl⟩, fun _ => ⟨rfl, rfl⟩⟩
    simp [Deed.perform, hread, hloaded, Except.toOption]

theorem kept_of_perform {handed : Bool} {outcomes : List Outcome} (h : Kept c handed c₁)
    (hhandlers : deed.Literals Constant.Finite) (hfaithful : deed.Faithful c₁)
    (hdeed : deed.perform c₁ = some (c₂, outcomes)) : Kept c (handed || deed.isWeaving) c₂ := by
  cases deed with
  | weave settings handlers ds =>
    cases hdeed
    rw [Deed.isWeaving, Bool.or_true]
    exact h.weave hhandlers
  | weaveRegistered settings handlers r =>
    cases hdeed
    rw [Deed.isWeaving, Bool.or_true]
    exact h.weave hhandlers
  | reload library =>
    obtain ⟨c₃, outcomes', hperform, hsame, -⟩ := perform_of_kept h hfaithful
    cases hdeed.symm.trans hperform
    rw [Deed.isWeaving, Bool.or_false, (hsame rfl).1]
    exact h

theorem kept_of_trace {handed : Bool} (h : Kept c handed c₁)
    (hhandlers : ∀ deed ∈ deeds, deed.Literals Constant.Finite) (htrace : Deed.Trace c₁ deeds c₂) :
    Kept c (handed || deeds.any Deed.isWeaving) c₂ := by
  induction htrace generalizing handed with
  | nil => rwa [List.any_nil, Bool.or_false]
  | cons hfaithful hdeed _ ih =>
    obtain ⟨hhandler, hhandlers⟩ := List.forall_mem_cons.1 hhandlers
    rw [List.any_cons, ← Bool.or_assoc]
    exact ih (kept_of_perform h hhandler hfaithful hdeed) hhandlers

/-- Whatever has been done with a class that was not woven, it can be woven, and saved and loaded,
once more. Only the first weaving changes it; from then on every directive comes too late. -/
theorem weaves_once (hc : c.woven = false) (hfinite : c.Literals Constant.Finite)
    (hhandlers : ∀ deed ∈ deeds, deed.Literals Constant.Finite)
    (htrace : Deed.Trace c deeds c₁) (next : Deed) (hnext : next.Faithful c₁) :
    c₁.name = c.name ∧ c₁.woven = deeds.any Deed.isWeaving ∧
      (deeds.any Deed.isWeaving = false → c₁ = c) ∧
      ∃ c₂ outcomes, next.perform c₁ = some (c₂, outcomes) ∧
        (next.isWeaving = false → c₂ = c₁ ∧ outcomes = []) ∧
        (deeds.any Deed.isWeaving = true →
          c₂ = c₁ ∧ outcomes = (next.handed c.name).zipIdx.map (Outcome.late c.name)) := by
  have hkept := kept_of_trace ⟨rfl, hc, hfinite, fun _ => rfl⟩ hhandlers htrace
  rw [Bool.false_or] at hkept
  exact ⟨hkept.name, hkept.woven, hkept.same, perform_of_kept hkept hnext⟩

def guardDeed : Deed := .weave .standard guardProvider [guardDirective]

def reloadDeed : Deed := .reload fun v => Json.parse? v.indented

def wovenGuardedClass : ClassDefinition :=
  (weave .standard guardProvider guardedClass [guardDirective]).cls

theorem faithful_reloadDeed : reloadDeed.Faithful wovenGuardedClass := by
  have hkinds : ∀ m ∈ wovenGuardedClass.methods, ∀ i ∈ m.code, ∀ l ∈ i.literal?,
      l.kind ≠ .float ∧ l.kind ≠ .double := by decide +kernel
  have hread : wovenGuardedClass.Literals Constant.ReadBack := by
    rintro m hm i hi l rfl
    obtain ⟨hfloat, hdouble⟩ := hkinds m hm _ hi l rfl
    cases l with
    | float x => exact absurd rfl hfloat
    | double x => exact absurd rfl hdouble
    | _ => trivial
  exact (Json.parse_printed (ClassDefinition.printable hread)).2

theorem guardedClass_woven_once : wovenGuardedClass ≠ guardedClass ∧
    Deed.Trace guardedClass [guardDeed, reloadDeed] wovenGuardedClass ∧
    guardDeed.perform wovenGuardedClass =
      some (wovenGuardedClass, [Outcome.late .object (guardDirective, 0)]) := by
  have hfinite : guardedClass.Literals Constant.Finite := by
    rintro m hm i hi l rfl
    cases List.mem_singleton.1 hm
    simp [guardedMethod] at hi
    rcases hi with rfl | rfl <;> trivial
  have hguard : guardDeed.Literals Constant.Finite := by
    rintro reference body h i hi l rfl
    unfold guardProvider at h
    split at h <;> cases h
    simp [guardHandler] at hi
  have hweave : Deed.Trace guardedClass [guardDeed] wovenGuardedClass := .cons trivial rfl .nil
  -- what is loaded is what was saved, by what is to be shown of a single weaving
  obtain ⟨-, -, -, c, outcomes, hreload, hsame, -⟩ :=
    weaves_once rfl hfinite (by simpa using hguard) hweave reloadDeed faithful_reloadDeed
  obtain ⟨rfl, rfl⟩ := hsame rfl
  have htrace : Deed.Trace guardedClass [guardDeed, reloadDeed] wovenGuardedClass :=
    .cons trivial rfl (.cons faithful_reloadDeed hreload .nil)
  obtain ⟨-, -, -, c, outcomes, hweave', -, hlate⟩ := weaves_once rfl hfinite
    (by simpa using ⟨hguard, trivial⟩) htrace guardDeed trivial
  obtain ⟨rfl, rfl⟩ := hlate rfl
  exact ⟨by decide +kernel, htrace, hweave'⟩

end Weaver

end CodeWeaving
