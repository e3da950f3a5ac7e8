import CodeWeaving.Proofs.Descriptor.WrittenForm
import CodeWeaving.Proofs.Weaving.RegisteredWeaving
import CodeWeaving.Weaving.Record

/-! Records of directives: which of them are well formed, and that just those are read, as what they
say and with defaults for what they leave out. -/
namespace CodeWeaving

/-- Modes that look for places in code by a selector. -/
def Mode.needsSelector : Mode → Bool
  | .modifyConstant | .overwrite => false
  | _ => true

def Keyword.needsPattern : Keyword → Bool
  | .invoke | .field | .new => true
  | _ => false

def SelectorRecord.HasPattern (r : SelectorRecord) : Prop :=
  r.keyword.needsPattern = true → r.targetPattern ≠ none

namespace DirectiveRecord

/-- The record has all that its mode needs. -/
structure HasParts (r : DirectiveRecord) : Prop where
  selector : r.mode.needsSelector = true → ∃ s, r.selector = some s ∧ s.HasPattern
  constant : r.mode = .modifyConstant → r.constant ≠ none
  slot : r.mode = .modifyVariable → ∀ s, r.selector = some s →
    s.slot ≠ none ∨ s.keyword = .store ∨ s.keyword = .load

/-- The texts that are to be names of classes. -/
def classNames (r : DirectiveRecord) : List String := [r.targetClass, r.handler.owner]

/-- The texts that are to be names of methods. -/
def memberNames (r : DirectiveRecord) : List String := [r.target.name, r.handler.name]

/-- The texts that are to be signatures. -/
def descriptors (r : DirectiveRecord) : List String :=
  r.target.descriptor.toList ++ [r.handler.descriptor]

/-- The parts are there, and every text is of the sort that is wanted. -/
structure WellFormed (r : DirectiveRecord) : Prop where
  parts : r.HasParts
  classNames : ∀ text ∈ r.classNames, ClassName.Valid text.toList
  memberNames : ∀ text ∈ r.memberNames, MemberName.Valid text.toList
  descriptors : ∀ text ∈ r.descriptors, SignatureGrammar text.toList

/-- What is wrong with a record. -/
inductive Faulty (r : DirectiveRecord) : RecordError → Prop
  | selector : r.mode.needsSelector = true → r.selector = none → r.Faulty (.noSelector r.mode)
  | pattern {s : SelectorRecord} : r.mode.needsSelector = true → r.selector = some s →
      ¬ s.HasPattern → r.Faulty (.noPattern s.keyword)
  | constant : r.mode = .modifyConstant → r.constant = none → r.Faulty .noConstant
  | slot {s : SelectorRecord} : r.mode = .modifyVariable → r.selector = some s → s.slot = none →
      s.keyword ≠ .store → s.keyword ≠ .load → r.Faulty .noSlot
  | className {text : String} {error : NameError} : text ∈ r.classNames →
      ClassName.ofString? text = .error error → r.Faulty (.badName error)
  | memberName {text : String} {error : NameError} : text ∈ r.memberNames →
      MemberName.ofString? text = .error error → r.Faulty (.badName error)
  | descriptor {text : String} {error : DescriptorError} : text ∈ r.descriptors →
      Signature.parse text = .error error → r.Faulty (.badDescriptor text error)

end DirectiveRecord

namespace Selector

/-- The keywords that select this. -/
def keywords : Selector → List Keyword
  | .head => [.head]
  | .returns => [.tail, .return_]
  | .calls .. => [.invoke]
  | .fieldAccesses .. => [.field]
  | .allocations .. => [.new]
  | .locals .store .. => [.store]
  | .locals .load .. => [.load]

def target? : Selector → Option TargetPattern
  | .calls target _ | .fieldAccesses target _ | .allocations target _ => some target
  | _ => none

def ordinal? : Selector → Option Int32
  | .calls _ ordinal | .fieldAccesses _ ordinal | .allocations _ ordinal
  | .locals _ _ _ ordinal => some ordinal
  | _ => none

end Selector

namespace Action

def mode : Action → Mode
  | .inject .. => .inject
  | .redirect .. => .redirect
  | .modifyConstant .. => .modifyConstant
  | .modifyArgument .. => .modifyArgument
  | .modifyArguments .. => .modifyArguments
  | .modifyVariable .. => .modifyVariable
  | .overwrite => .overwrite

def point? : Action → Option InjectionPoint
  | .inject p _ | .redirect p | .modifyArgument p _ | .modifyArguments p
  | .modifyVariable p _ => some p
  | .modifyConstant _ | .overwrite => none

end Action

/-- The selector is the one of the keyword. Left out, a comparison is permissive and an ordinal
stands for all matches. -/
structure SelectorRecord.Selects (r : SelectorRecord) (s : Selector) : Prop where
  keyword : r.keyword ∈ s.keywords
  target : ∀ target, s.target? = some target →
    r.targetPattern = some target.text ∧ target.mode = r.mode.getD .permissive
  ordinal : ∀ ordinal, s.ordinal? = some ordinal → ordinal = r.ordinal.getD (-1)
  locals : ∀ access slot kind ordinal, s = .locals access slot kind ordinal →
    slot = r.slot ∧ kind = r.kind

/-- The point is what the record selects, by itself and from before it unless it says otherwise. -/
structure SelectorRecord.Means (r : SelectorRecord) (p : InjectionPoint) : Prop where
  selector : r.Selects p.selector
  shift : p.shift = r.shift.getD 0
  placement : p.placement = r.placement.getD .before

namespace DirectiveRecord

/-- The action is what the record asks for. -/
structure Asks (r : DirectiveRecord) (a : Action) : Prop where
  mode : a.mode = r.mode
  point : ∀ p, a.point? = some p → ∃ s, r.selector = some s ∧ s.Means p
  cancellable : ∀ p cancellable, a = .inject p cancellable → cancellable = r.cancellable
  index : ∀ p index, a = .modifyArgument p index → index = r.argumentIndex
  slot : ∀ p slot, a = .modifyVariable p slot → slot = r.selector.bind SelectorRecord.slot
  constant : ∀ c, a = .modifyConstant c → r.constant = some c.value ∧
    c.ordinal = (r.selector.bind SelectorRecord.ordinal).getD (-1)

/-- The directive is the one that the record stands for: its names and signatures are written as
they are in the record. -/
structure Gives (r : DirectiveRecord) (settings : Settings) (d : Directive) : Prop where
  targetClass : d.targetClass.text = r.targetClass
  targetName : d.target.name.text = r.target.name
  targetDescriptor : d.target.signature.map Signature.render = r.target.descriptor
  handlerOwner : d.handler.owner.text = r.handler.owner
  handlerName : d.handler.name.text = r.handler.name
  handlerDescriptor : d.handler.signature.render = r.handler.descriptor
  priority : d.priority = r.priority.getD settings.defaultPriority
  required : d.required = r.required
  action : r.Asks d.action

end DirectiveRecord

/-- Something is accepted just if it is well formed. What comes of it is as said, and so is any
error. -/
structure Validates {α : Type} (x : Except RecordError α) (wellFormed : Prop) (gives : α → Prop)
    (faulty : RecordError → Prop) : Prop where
  accepts_iff : (∃ a, x = .ok a) ↔ wellFormed
  gives : ∀ a, x = .ok a → gives a
  faulty : ∀ e, x = .error e → faulty e

namespace Validates

variable {α β : Type} {x : Except RecordError α} {W W' : Prop} {G : α → Prop} {G' : β → Prop}
  {F F' : RecordError → Prop} {a : α} {e : RecordError}

theorem ok (hW : W) (hG : G a) : Validates (.ok a) W G F where
  accepts_iff := ⟨fun _ => hW, fun _ => ⟨a, rfl⟩⟩
  gives := by
    rintro _ ⟨⟩
    exact hG
  faulty := by
    rintro _ ⟨⟩

theorem error (hW : ¬ W) (hF : F e) : Validates (.error e : Except RecordError α) W G F where
  accepts_iff := by
    refine ⟨?_, fun h => absurd h hW⟩
    rintro ⟨_, ⟨⟩⟩
  gives := by
    rintro _ ⟨⟩
  faulty := by
    rintro _ ⟨⟩
    exact hF

theorem congr (h : Validates x W G F) (hW : W ↔ W') : Validates x W' G F :=
  ⟨h.accepts_iff.trans hW, h.gives, h.faulty⟩

theorem mono {G' : α → Prop} (h : Validates x W G F) (hG : ∀ a, G a → G' a)
    (hF : ∀ e, F e → F' e) : Validates x W G' F' :=
  ⟨h.accepts_iff, fun a ha => hG a (h.gives a ha), fun e he => hF e (h.faulty e he)⟩

theorem bind {f : α → Except RecordError β} (h : Validates x W G F)
    (hf : ∀ a, x = .ok a → G a → Validates (f a) W' G' F) : Validates (x >>= f) (W ∧ W') G' F := by
  cases hx : x with
  | error e =>
    refine .error (fun hW => ?_) (h.faulty e hx)
    obtain ⟨a, ha⟩ := h.accepts_iff.2 hW.1
    cases hx.symm.trans ha
  | ok a =>
    have hW : W := h.accepts_iff.1 ⟨a, hx⟩
    exact (hf a hx (h.gives a hx)).congr ⟨fun hW' => ⟨hW, hW'⟩, And.right⟩

theorem bind_pure {f : α → β} (h : Validates x W G F) (hf : ∀ a, G a → G' (f a)) :
    Validates (x >>= fun a => pure (f a)) W G' F :=
  (h.bind fun a _ ha => .ok trivial (hf a ha)).congr (iff_of_eq (and_true W))

theorem map {f : α → β} (h : Validates x W G F) (hf : ∀ a, G a → G' (f a)) :
    Validates (x.map f) W G' F := by
  have hbind : x.map f = x >>= fun a => pure (f a) := by cases x <;> rfl
  rw [hbind]
  exact h.bind_pure hf

theorem mapError {ε : Type} {y : Except ε α} {bad : ε → RecordError}
    (hW : (∃ a, y = .ok a) ↔ W) (hG : ∀ a, y = .ok a → G a)
    (hF : ∀ error, y = .error error → F (bad error)) : Validates (y.mapError bad) W G F := by
  cases y with
  | ok a => exact .ok (hW.1 ⟨a, rfl⟩) (hG a rfl)
  | error e =>
    refine .error (fun h => ?_) (hF e rfl)
    obtain ⟨a, ⟨⟩⟩ := hW.2 h

end Validates

section Texts

variable (text : String) {F : RecordError → Prop}

theorem validates_readClassName
    (hF : ∀ error, ClassName.ofString? text = .error error → F (.badName error)) :
    Validates (readClassName text) (ClassName.Valid text.toList) (fun c => c.text = text) F := by
  refine .mapError ⟨?_, fun h => ⟨⟨text, h⟩, ClassName.ofString?_eq_ok.2 rfl⟩⟩
    (fun c hc => ClassName.ofString?_eq_ok.1 hc) hF
  rintro ⟨c, hc⟩
  exact ClassName.ofString?_eq_ok.1 hc ▸ c.valid

theorem validates_readMemberName
    (hF : ∀ error, MemberName.ofString? text = .error error → F (.badName error)) :
    Validates (readMemberName text) (MemberName.Valid text.toList) (fun n => n.text = text) F := by
  refine .mapError ⟨?_, fun h => ⟨⟨text, h⟩, MemberName.ofString?_eq_ok.2 rfl⟩⟩
    (fun n hn => MemberName.ofString?_eq_ok.1 hn) hF
  rintro ⟨n, hn⟩
  exact MemberName.ofString?_eq_ok.1 hn ▸ n.valid

theorem validates_readSignature
    (hF : ∀ error, Signature.parse text = .error error → F (.badDescriptor text error)) :
    Validates (readSignature text) (SignatureGrammar text.toList) (fun s => s.render = text) F := by
  have hread := Signature.inverts_read.readAsWritten Signature.exists_chars_iff
  exact .mapError (hread.accepts_iff text)
    (fun s hs => ((hread.parse_eq_ok_iff text s).1 hs).symm) hF

end Texts

namespace SelectorRecord

variable {r : SelectorRecord} {F : RecordError → Prop}

theorem selectsLocals_eq_false_iff :
    r.selectsLocals = false ↔ r.keyword ≠ .store ∧ r.keyword ≠ .load := by
  simp [selectsLocals]

theorem hasPattern_iff (h : r.keyword.needsPattern = true) :
    r.HasPattern ↔ r.targetPattern ≠ none := by
  simp [HasPattern, h]

theorem validates_pattern (hF : r.targetPattern = none → F (.noPattern r.keyword)) :
    Validates r.pattern (r.targetPattern ≠ none)
      (fun t => r.targetPattern = some t.text ∧ t.mode = r.mode.getD .permissive) F := by
  unfold pattern
  cases htext : r.targetPattern with
  | some text => exact .ok (by simp) ⟨rfl, rfl⟩
  | none => exact .error (by simp) (hF htext)

/-- A selector with a target. -/
theorem validates_targeted {select : TargetPattern → Selector}
    (hneeds : r.keyword.needsPattern = true)
    (hselects : ∀ target, r.targetPattern = some target.text →
      target.mode = r.mode.getD .permissive → r.Selects (select target))
    (hF : ¬ r.HasPattern → F (.noPattern r.keyword)) :
    Validates (r.pattern.map select) r.HasPattern r.Selects F := by
  have hpattern := validates_pattern fun hnone =>
    hF fun hpattern => (hasPattern_iff hneeds).1 hpattern hnone
  exact (hpattern.map fun target htarget => hselects target htarget.1 htarget.2).congr
    (hasPattern_iff hneeds).symm

theorem validates_selector (hF : ¬ r.HasPattern → F (.noPattern r.keyword)) :
    Validates r.selector r.HasPattern r.Selects F := by
  unfold selector
  cases hkeyword : r.keyword with
  | head | tail | return_ =>
    refine .ok (by simp [HasPattern, hkeyword, Keyword.needsPattern]) ?_
    constructor <;> simp [hkeyword, Selector.keywords, Selector.target?, Selector.ordinal?]
  | store | load =>
    refine .ok (by simp [HasPattern, hkeyword, Keyword.needsPattern]) ⟨?_, ?_, ?_, ?_⟩
    · simp [hkeyword, Selector.keywords]
    · simp [Selector.target?]
    · simp [Selector.ordinal?]
    · rintro _ _ _ _ ⟨⟩
      exact ⟨rfl, rfl⟩
  | invoke | field | new =>
    refine validates_targeted (by simp [hkeyword, Keyword.needsPattern]) (fun target h hm => ?_) hF
    constructor <;> simp [hkeyword, Selector.keywords, Selector.target?, Selector.ordinal?, h, hm]

theorem validates_point (hF : ¬ r.HasPattern → F (.noPattern r.keyword)) :
    Validates r.point r.HasPattern r.Means F :=
  (validates_selector hF).map fun _ hselects => ⟨hselects, rfl, rfl⟩

end SelectorRecord

namespace DirectiveRecord

variable {r : DirectiveRecord}

theorem validates_target (r : DirectiveRecord) : Validates r.target.selector
    (MemberName.Valid r.target.name.toList ∧
      ∀ text ∈ r.target.descriptor, SignatureGrammar text.toList)
    (fun s => s.name.text = r.target.name ∧ s.signature.map Signature.render = r.target.descriptor)
    r.Faulty := by
  refine .bind (validates_readMemberName _ fun _ he => .memberName (by simp [memberNames]) he)
    fun name _ hname => ?_
  cases hdescriptor : r.target.descriptor with
  | none => exact .ok (by simp) ⟨hname, rfl⟩
  | some text =>
    have hsignature := validates_readSignature text (F := r.Faulty) fun _ he =>
      .descriptor (by simp [descriptors, hdescriptor]) he
    refine (hsignature.bind_pure fun s hs => ⟨hname, ?_⟩).congr (by simp)
    exact congrArg some hs

theorem validates_handler (r : DirectiveRecord) : Validates r.handler.reference
    (ClassName.Valid r.handler.owner.toList ∧ MemberName.Valid r.handler.name.toList ∧
      SignatureGrammar r.handler.descriptor.toList)
    (fun h => h.owner.text = r.handler.owner ∧ h.name.text = r.handler.name ∧
      h.signature.render = r.handler.descriptor) r.Faulty := by
  refine .bind (validates_readClassName _ fun _ he => .className (by simp [classNames]) he)
    fun owner _ howner => ?_
  refine .bind (validates_readMemberName _ fun _ he => .memberName (by simp [memberNames]) he)
    fun name _ hname => ?_
  have hsignature := validates_readSignature r.handler.descriptor (F := r.Faulty) fun _ he =>
    .descriptor (by simp [descriptors]) he
  exact hsignature.bind_pure fun s hs => ⟨howner, hname, hs⟩

theorem validates_point (hneeds : r.mode.needsSelector = true) :
    Validates r.point (∃ s, r.selector = some s ∧ s.HasPattern)
      (fun p => ∃ s, r.selector = some s ∧ s.Means p) r.Faulty := by
  unfold point withSelector
  cases hselector : r.selector with
  | none => exact .error (by simp) (.selector hneeds hselector)
  | some s =>
    have hpoint := s.validates_point (F := r.Faulty) (.pattern hneeds hselector)
    exact (hpoint.mono (fun p hp => ⟨s, rfl, hp⟩) fun _ he => he).congr (by simp)

/-- A mode for which a point is all that is needed. -/
theorem validates_pointed {ask : InjectionPoint → Action} (hneeds : r.mode.needsSelector = true)
    (hmode : r.mode ≠ .modifyVariable)
    (hask : ∀ p s, r.selector = some s → s.Means p → r.Asks (ask p)) :
    Validates (r.point.map ask) r.HasParts r.Asks r.Faulty := by
  refine ((validates_point hneeds).map fun p ⟨s, hs, hp⟩ => hask p s hs hp).congr ?_
  refine ⟨fun h => ⟨fun _ => h, ?_, ?_⟩, fun h => h.selector hneeds⟩
  · intro hconstant
    rw [hconstant] at hneeds
    cases hneeds
  · intro h
    exact absurd h hmode

theorem hasParts_modifyVariable {s : SelectorRecord} (hmode : r.mode = .modifyVariable)
    (hselector : r.selector = some s) : s.HasPattern ∧
      (s.slot ≠ none ∨ s.keyword = .store ∨ s.keyword = .load) ↔ r.HasParts := by
  constructor
  · rintro ⟨hpattern, hslot⟩
    refine ⟨fun _ => ⟨s, hselector, hpattern⟩, by simp [hmode], fun _ s' hs' => ?_⟩
    cases hselector.symm.trans hs'
    exact hslot
  · intro h
    obtain ⟨s', hs', hpattern⟩ := h.selector (by rw [hmode]; rfl)
    cases hselector.symm.trans hs'
    exact ⟨hpattern, h.slot hmode s hselector⟩

theorem validates_modifyVariable (hmode : r.mode = .modifyVariable) :
    Validates r.action r.HasParts r.Asks r.Faulty := by
  have hneeds : r.mode.needsSelector = true := by rw [hmode]; rfl
  unfold action withSelector
  rw [hmode]
  cases hselector : r.selector with
  | none =>
    refine .error (fun h => ?_) (hmode ▸ .selector hneeds hselector)
    obtain ⟨s, hs, -⟩ := h.selector hneeds
    cases hselector.symm.trans hs
  | some s =>
    have hpoint := s.validates_point (F := r.Faulty) (.pattern hneeds hselector)
    refine (hpoint.bind fun p _ hp => ?_).congr (hasParts_modifyVariable hmode hselector)
    simp only [SelectorRecord.selectsLocals_eq_false_iff]
    split
    · rename_i h
      obtain ⟨hslot, hstore, hload⟩ := h
      exact .error (by simp [hslot, hstore, hload]) (.slot hmode hselector hslot hstore hload)
    · rename_i h
      refine .ok ?_ ?_
      · simpa only [not_and_or, ne_eq, not_not] using h
      · constructor <;> simp [hmode, Action.mode, Action.point?, hselector, hp]

theorem validates_action (r : DirectiveRecord) :
    Validates r.action r.HasParts r.Asks r.Faulty := by
  cases hmode : r.mode with
  | modifyVariable => exact validates_modifyVariable hmode
  | modifyConstant =>
    unfold action
    rw [hmode]
    cases hconstant : r.constant with
    | none =>
      exact .error (fun h => h.constant hmode hconstant) (.constant hmode hconstant)
    | some value =>
      refine .ok (by constructor <;> simp [hmode, hconstant, Mode.needsSelector]) ?_
      constructor <;> simp [hmode, Action.mode, Action.point?, hconstant]
  | overwrite =>
    unfold action
    rw [hmode]
    refine .ok (by constructor <;> simp [hmode, Mode.needsSelector]) ?_
    constructor <;> simp [hmode, Action.mode, Action.point?]
  | inject | redirect | modifyArgument | modifyArguments =>
    unfold action
    rw [hmode]
    refine validates_pointed (by simp [hmode, Mode.needsSelector]) (by simp [hmode])
      fun p s hs hp => ?_
    constructor <;> simp [hmode, Action.mode, Action.point?, hs, hp]

theorem wellFormed_iff : (r.HasParts ∧ ClassName.Valid r.targetClass.toList ∧
      (MemberName.Valid r.target.name.toList ∧
        ∀ text ∈ r.target.descriptor, SignatureGrammar text.toList) ∧
      ClassName.Valid r.handler.owner.toList ∧ MemberName.Valid r.handler.name.toList ∧
      SignatureGrammar r.handler.descriptor.toList) ↔ r.WellFormed := by
  constructor
  · rintro ⟨hparts, hclass, ⟨hname, hdescriptor⟩, howner, hmethod, hsignature⟩
    refine ⟨hparts, ?_, ?_, ?_⟩
    · simp [classNames, hclass, howner]
    · simp [memberNames, hname, hmethod]
    · simpa [descriptors, or_imp, forall_and, hsignature] using hdescriptor
  · intro h
    have hdescriptor : ∀ text ∈ r.target.descriptor, text ∈ r.descriptors := by
      intro text htext
      exact List.mem_append_left _ (Option.mem_toList.2 htext)
    exact ⟨h.parts, h.classNames _ (by simp [classNames]),
      ⟨h.memberNames _ (by simp [memberNames]), fun text htext =>
        h.descriptors text (hdescriptor text htext)⟩,
      h.classNames _ (by simp [classNames]), h.memberNames _ (by simp [memberNames]),
      h.descriptors _ (by simp [descriptors])⟩

/-- Just the well-formed records are read, and as what they say. -/
theorem validates_directive (r : DirectiveRecord) (settings : Settings) :
    Validates (r.directive settings) r.WellFormed (r.Gives settings) r.Faulty := by
  refine Validates.congr ?_ wellFormed_iff
  refine .bind r.validates_action fun action _ haction => ?_
  refine .bind (validates_readClassName _ fun _ he => .className (by simp [classNames]) he)
    fun targetClass _ hclass => ?_
  refine .bind r.validates_target fun target _ ⟨hname, hdescriptor⟩ => ?_
  refine r.validates_handler.bind_pure fun handler ⟨howner, hmethod, hsignature⟩ => ?_
  exact ⟨hclass, hname, hdescriptor, howner, hmethod, hsignature, rfl, rfl, haction⟩

end DirectiveRecord

/-- The registry has just these directives: each class's own, in weaving order. -/
def Registry.Holds (registry : Registry) (ds : List Directive) : Prop :=
  registry.size = ds.length ∧ ∀ name, InWeavingOrder (registry.directivesFor name)
    (ds.filter fun d => d.targetClass = name)

/-- The error is that of the first record that is not well formed. -/
def FirstFault (records : List DirectiveRecord) (settings : Settings) (e : RecordError) : Prop :=
  ∃ before r after, records = before ++ r :: after ∧ (∀ q ∈ before, q.WellFormed) ∧
    r.directive settings = .error e

theorem validates_directives (records : List DirectiveRecord) (settings : Settings) :
    Validates (records.mapM fun r => r.directive settings) (∀ r ∈ records, r.WellFormed)
      (fun ds => List.Forall₂ (fun r d => r.directive settings = .ok d) records ds)
      (FirstFault records settings) := by
  induction records with
  | nil => exact .ok (by simp) .nil
  | cons r records ih =>
    rw [List.mapM_cons]
    have hread := r.validates_directive settings
    have hfirst : Validates (r.directive settings) r.WellFormed (r.Gives settings)
        (FirstFault (r :: records) settings) :=
      ⟨hread.accepts_iff, hread.gives, fun _ he =>
        ⟨[], r, records, rfl, List.forall_mem_nil _, he⟩⟩
    refine (hfirst.bind fun d hd _ => ?_).congr List.forall_mem_cons.symm
    refine (ih.mono (fun _ hds => hds) ?_).bind_pure fun ds hds => .cons hd hds
    rintro e ⟨before, q, after, rfl, hbefore, hq⟩
    have hr : r.WellFormed := hread.accepts_iff.1 ⟨d, hd⟩
    exact ⟨r :: before, q, after, rfl, List.forall_mem_cons.2 ⟨hr, hbefore⟩, hq⟩

theorem RecordError.exists_message (e : RecordError) :
    ∃ text, e.message = "malformed directive: " ++ text := by
  cases e with
  | noSelector mode => exact ⟨mode.title ++ " directives need a selector", String.append_assoc⟩
  | noPattern keyword => exact ⟨keyword.title ++ " needs a target pattern", String.append_assoc⟩
  | noConstant => exact ⟨"ModifyConstant directives need a constant match", by decide⟩
  | noSlot =>
    exact ⟨"ModifyVariable directives need a slot unless they select a STORE or LOAD", by decide⟩
  | badName error => exact ⟨error.message, rfl⟩
  | badDescriptor text error =>
    have hliteral : "malformed directive: bad descriptor '" =
        "malformed directive: " ++ "bad descriptor '" := by decide
    refine ⟨"bad descriptor '" ++ (text ++ ("': " ++ error.message)), ?_⟩
    rw [← String.append_assoc, ← hliteral]
    exact String.append_assoc.trans String.append_assoc

/-- Just the well-formed records are read, each as the directive that it stands for, and with one
fault of its own otherwise. A registry is made of records that are all well formed, and of all of
them. -/
theorem records_validated (settings : Settings) :
    (∀ r : DirectiveRecord,
      Validates (r.directive settings) r.WellFormed (r.Gives settings) r.Faulty) ∧
    (∀ e : RecordError, ∃ text, e.message = "malformed directive: " ++ text) ∧
    ∀ records, Validates (Registry.ofRecords records settings) (∀ r ∈ records, r.WellFormed)
      (fun registry => ∃ ds, List.Forall₂ (fun r d => r.directive settings = .ok d) records ds ∧
        registry.Holds ds)
      (FirstFault records settings) := by
  refine ⟨fun r => r.validates_directive settings, RecordError.exists_message, fun records => ?_⟩
  refine (validates_directives records settings).bind_pure fun ds hds =>
    ⟨ds, hds, Registry.size_ofList, fun name => ?_⟩
  rw [Registry.directivesFor_ofList]
  exact inWeavingOrder_spec

/-- Redirects calls, of any ordinal and from wherever nothing else is said. -/
def redirectRecord : DirectiveRecord where
  mode := .redirect
  targetClass := "a/B"
  target := ⟨"run", none⟩
  handler := ⟨"h/H", "r", "(La/B;)I"⟩
  priority := none
  required := false
  selector := some ⟨.invoke, some "a/C.get", none, none, none, none, none, none⟩
  cancellable := false
  argumentIndex := none
  constant := none

def unpatternedRecord : DirectiveRecord :=
  { redirectRecord with
    selector := some ⟨.invoke, none, none, none, none, none, none, none⟩ }

theorem wellFormed_redirectRecord : redirectRecord.WellFormed where
  parts := ⟨fun _ => ⟨_, rfl, fun _ => by decide⟩, by decide, by decide⟩
  classNames := by decide
  memberNames := by decide
  descriptors := by
    intro text htext
    cases List.mem_singleton.1 htext
    exact Signature.exists_chars_iff.1 ⟨⟨[.object ⟨"a/B", by decide⟩], some .int⟩, by decide⟩

theorem redirectRecord_validated : redirectRecord.WellFormed ∧ ¬ unpatternedRecord.WellFormed ∧
    (∃ d, redirectRecord.directive .standard = .ok d ∧ d.priority = 1000) ∧
    ¬ ∃ registry, Registry.ofRecords [redirectRecord, unpatternedRecord] .standard =
      .ok registry := by
  obtain ⟨hvalidates, -, hregistry⟩ := records_validated .standard
  have hbad : unpatternedRecord.directive .standard = .error (.noPattern .invoke) := rfl
  have hunpatterned : ¬ unpatternedRecord.WellFormed := by
    intro h
    obtain ⟨d, hd⟩ := (hvalidates unpatternedRecord).accepts_iff.2 h
    cases hbad.symm.trans hd
  obtain ⟨d, hd⟩ := (hvalidates redirectRecord).accepts_iff.2 wellFormed_redirectRecord
  refine ⟨wellFormed_redirectRecord, hunpatterned,
    ⟨d, hd, ((hvalidates redirectRecord).gives d hd).priority⟩, fun h => hunpatterned ?_⟩
  exact (hregistry _).accepts_iff.1 h _ (by simp)

end CodeWeaving
