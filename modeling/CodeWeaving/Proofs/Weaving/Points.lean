import CodeWeaving.Proofs.Weaving.FreshSlots
import CodeWeaving.Proofs.Weaving.MethodWise
import Mathlib.Data.Finset.Card
import Mathlib.Data.Finset.Dedup

/-! How many points a directive has in a method: one for each place that it stands for. That nothing
was found is said only where there is no such place. -/
namespace CodeWeaving

variable {α β : Type}

/-- The places in code that a point stands for. -/
def InjectionPoint.places (p : InjectionPoint) (code : Code) : Except WeaveError (Finset Nat) :=
  (p.selector.matches? code).map fun found =>
    (found.map fun i => moved code.length i p.shift).toFinset

/-- The places in code where a literal is pushed. -/
def ConstantMatch.places (c : ConstantMatch) (epsilon : Float) (code : Code) :
    Except WeaveError (Finset Nat) :=
  (chooseOrdinal (code.positions fun i =>
    i.literal?.any fun pushed => CodeStream.literalsMatch epsilon pushed c.value) c.ordinal).map
      List.toFinset

/-- The places in code that a directive is for. An overwritten body counts as one. -/
def Directive.places (d : Directive) (settings : Settings) (code : Code) :
    Except WeaveError (Finset Nat) :=
  match d.action with
  | .inject p _ | .redirect p | .modifyArgument p _ | .modifyArguments p => p.places code
  | .modifyConstant c => c.places settings.floatEpsilon code
  | .modifyVariable p _ =>
    match d.handler.signature.parameters with
    | [parameter] => (ModifyVariable.narrowed p parameter).places code
    | _ => p.places code
  | .overwrite => .ok {0}

/-- How many places there are, as far as that can be told. -/
def Directive.pointsIn (d : Directive) (settings : Settings) (code : Code) : Nat :=
  match d.places settings code with
  | .ok places => places.card
  | .error _ => 0

/-- Whether something is wrong beyond there being nothing to find. -/
def WeaveError.isFault : WeaveError → Bool
  | .noMatch _ => false
  | _ => true

theorem WeaveError.ne_noMatch {e : WeaveError} (h : e.isFault = true) (sought : Sought) :
    e ≠ .noMatch sought := by
  rintro rfl
  cases h

/-- Whatever is wrong, it is not that nothing was found. -/
def Finds (x : Except WeaveError α) : Prop := ∀ sought, x ≠ .error (.noMatch sought)

theorem Traced.result_guarded {y : Traced α} {c : Prop} [Decidable c] {e : WeaveError} :
    (if c then (do Traced.fail e; y) else y).result = if c then .error e else y.result := by
  split <;> rfl

namespace Finds

variable {x : Except WeaveError α} {f : α → Except WeaveError β} {e : WeaveError} {y : Traced α}
  {c : Prop} [Decidable c]

theorem ok {a : α} : Finds (.ok a : Except WeaveError α) := by
  intro sought h
  cases h

theorem error (he : e.isFault = true) : Finds (.error e : Except WeaveError α) := by
  intro sought h
  exact e.ne_noMatch he sought (Except.error.inj h)

theorem bind (hx : Finds x) (hf : ∀ a, Finds (f a)) : Finds (x >>= f) := by
  intro sought h
  rcases bind_eq_error.1 h with h | ⟨a, -, h⟩
  · exact hx sought h
  · exact hf a sought h

theorem map {g : α → β} (hx : Finds x) : Finds (x.map g) := by
  intro sought h
  exact hx sought (map_eq_error.1 h)

theorem mapM {l : List α} (hf : ∀ a, Finds (f a)) : Finds (l.mapM f) := by
  induction l with
  | nil => exact ok
  | cons a l ih =>
    rw [List.mapM_cons]
    exact (hf a).bind fun _ => ih.bind fun _ => ok

theorem guarded (he : e.isFault = true) (hy : Finds y.result) :
    Finds (if c then (do Traced.fail e; y) else y).result := by
  split
  · exact error he
  · exact hy

end Finds

/-- What comes of looking for places: something of the size of their number, and word of nothing
found only if there are none. -/
structure Accounts (places : Except WeaveError (Finset Nat)) (size : α → Nat)
    (x : Except WeaveError α) : Prop where
  counted : ∀ a, x = .ok a → ∃ s, places = .ok s ∧ s.Nonempty ∧ size a = s.card
  missed : ∀ sought, x = .error (.noMatch sought) → places = .ok ∅

namespace Accounts

variable {places : Except WeaveError (Finset Nat)} {size : α → Nat} {size' : β → Nat}
  {x : Except WeaveError α} {f : α → Except WeaveError β}

theorem bind (hx : Accounts places size x) (hf : ∀ a, Finds (f a))
    (hsize : ∀ a b, f a = .ok b → size' b = size a) : Accounts places size' (x >>= f) := by
  constructor
  · intro b h
    obtain ⟨a, ha, hb⟩ := bind_eq_ok.1 h
    obtain ⟨s, hs, hne, hcard⟩ := hx.counted a ha
    exact ⟨s, hs, hne, (hsize a b hb).trans hcard⟩
  · intro sought h
    rcases bind_eq_error.1 h with h | ⟨a, -, h⟩
    · exact hx.missed sought h
    · exact absurd h (hf a sought)

theorem error {e : WeaveError} (he : e.isFault = true) :
    Accounts places size (.error e : Except WeaveError α) := by
  constructor
  · intro a h
    cases h
  · intro sought h
    exact absurd (Except.error.inj h) (e.ne_noMatch he sought)

/-- What is looked at before makes no difference. -/
theorem after (hx : Finds x) (hf : ∀ a, x = .ok a → Accounts places size' (f a)) :
    Accounts places size' (x >>= f) := by
  constructor
  · intro b h
    obtain ⟨a, ha, hb⟩ := bind_eq_ok.1 h
    exact (hf a ha).counted b hb
  · intro sought h
    rcases bind_eq_error.1 h with h | ⟨a, ha, h⟩
    · exact absurd h (hx sought)
    · exact (hf a ha).missed sought h

theorem guarded {y : Traced α} {c : Prop} [Decidable c] {e : WeaveError}
    (he : e.isFault = true) (hy : Accounts places size y.result) :
    Accounts places size (if c then (do Traced.fail e; y) else y).result := by
  split
  · exact .error he
  · exact hy

/-- An empty list of what was looked for ends the matter. -/
theorem ofFound {x : Except WeaveError (List α)} {f : List α → Except WeaveError β}
    {sought : Sought} (hx : Finds x)
    (hcard : ∀ l, x = .ok l → ∃ s, places = .ok s ∧ s.card = l.length) (hf : ∀ l, Finds (f l))
    (hsize : ∀ l b, f l = .ok b → size' b = l.length) :
    Accounts places size'
      (x >>= fun l => if l.isEmpty then .error (.noMatch sought) else f l) := by
  constructor
  · intro b h
    obtain ⟨l, hl, h⟩ := bind_eq_ok.1 h
    obtain ⟨s, hs, hlength⟩ := hcard l hl
    split at h
    · cases h
    · rename_i hne
      refine ⟨s, hs, Finset.card_pos.1 ?_, (hsize l b h).trans hlength.symm⟩
      rw [hlength]
      exact List.length_pos_iff.2 (by simpa using hne)
  · intro sought h
    rcases bind_eq_error.1 h with h | ⟨l, hl, h⟩
    · exact absurd h (hx sought)
    · obtain ⟨s, hs, hlength⟩ := hcard l hl
      split at h
      · rename_i hnone
        rw [hs, Finset.card_eq_zero.1 (hlength.trans (by simpa using hnone))]
      · exact absurd h (hf l sought)

end Accounts

theorem finds_coerce (source target : ValueType) : Finds (source.coerce target) := by
  intro sought h
  cases (ValueType.coerce_eq_error.1 h).2

theorem Handler.finds_filter (h : Handler) (value parameter result : ValueType) :
    Finds (h.filter value parameter result) :=
  (finds_coerce _ _).bind fun _ => (finds_coerce _ _).bind fun _ => .ok

theorem SlotAllocator.finds_allocate (a : SlotAllocator) (k : ValueKind) :
    Finds (a.allocate k) := by
  unfold allocate
  split
  · exact .ok
  · exact .error rfl

theorem SlotAllocator.finds_allocateAll (a : SlotAllocator) (kinds : List ValueKind) :
    Finds (a.allocateAll kinds) := by
  induction kinds generalizing a with
  | nil => exact .ok
  | cons k kinds ih => exact (finds_allocate _ _).bind fun _ => (ih _).bind fun _ => .ok

theorem Supply.finds_slot (s : Supply) (k : ValueKind) : Finds (s.slot k) :=
  (SlotAllocator.finds_allocate _ _).map

theorem Supply.finds_slotsFor (s : Supply) (kinds : List ValueKind) : Finds (s.slotsFor kinds) :=
  (SlotAllocator.finds_allocateAll _ _).map

theorem Spill.finds_loadAs (s : Spill) (targets : List ValueType) : Finds (s.loadAs targets) := by
  induction s generalizing targets with
  | nil => exact .ok
  | cons v s ih =>
    cases targets with
    | nil => exact .ok
    | cons target targets => exact (finds_coerce _ _).bind fun _ => (ih _).bind fun _ => .ok

theorem Context.finds_filterTypes (cx : Context) (filtered : Filtered) :
    Finds (cx.filterTypes filtered) := by
  unfold filterTypes
  split
  · exact .ok
  · exact .error rfl

theorem InjectionPoint.places_of_positions {p : InjectionPoint} {code : Code} {l : List Nat}
    (h : p.positions code = .ok l) :
    p.places code = .ok l.toFinset ∧ l.Nodup ∧ ∀ i ∈ l, i < code.length := by
  have hlt := lt_of_positions h
  obtain ⟨found, hfound, h⟩ := bind_eq_ok.1 h
  cases h
  refine ⟨?_, nodup_eraseDups _, hlt⟩
  rw [places, hfound]
  refine congrArg Except.ok (Finset.ext fun i => ?_)
  rw [List.mem_toFinset, List.mem_toFinset, List.mem_eraseDups]

namespace CodeStream

variable {s : CodeStream} {positions : List Nat} {sites : List Site} {p : InjectionPoint}
  {c : ConstantMatch} {epsilon : Float}

theorem length_sites (h : ∀ p ∈ positions, p < s.instructions.length) :
    (s.sites positions).length = positions.length := by
  have hlength := congrArg List.length (map_anchor_sites h)
  rwa [List.length_map, List.length_map] at hlength

/-- Sites are as many as the places they stand at. -/
theorem card_places_of_locate (h : s.locate p = .ok sites) :
    ∃ places, p.places s.instructions = .ok places ∧ places.card = sites.length := by
  rw [locate_eq] at h
  obtain ⟨l, hl, rfl⟩ := map_eq_ok.1 h
  obtain ⟨hplaces, hnodup, hlt⟩ := InjectionPoint.places_of_positions hl
  exact ⟨_, hplaces, (List.toFinset_card_of_nodup hnodup).trans (length_sites hlt).symm⟩

theorem card_places_of_locateConstant (h : s.locateConstant c epsilon = .ok sites) :
    ∃ places, c.places epsilon s.instructions = .ok places ∧ places.card = sites.length := by
  obtain ⟨l, hl, rfl⟩ := map_eq_ok.1 h
  have hsublist := sublist_of_chooseOrdinal hl
  refine ⟨l.toFinset, ?_, ?_⟩
  · rw [ConstantMatch.places, hl]
    rfl
  · rw [List.toFinset_card_of_nodup (Code.nodup_positions.sublist hsublist)]
    exact (length_sites fun i hi => Code.lt_of_mem_positions (hsublist.subset hi)).symm

end CodeStream

theorem finds_chooseOrdinal (found : List α) (ordinal : Int32) :
    Finds (chooseOrdinal found ordinal) := by
  unfold chooseOrdinal
  split
  · exact .ok
  · split
    · exact .error rfl
    · exact .ok

theorem CodeStream.finds_locate (s : CodeStream) (p : InjectionPoint) : Finds (s.locate p) := by
  have hmatches : Finds (p.selector.matches? s.instructions) := by
    unfold Selector.matches?
    split
    · exact .ok
    · exact .ok
    all_goals exact finds_chooseOrdinal _ _
  rw [locate_eq]
  exact Finds.map (hmatches.bind fun _ => .ok)

/-- Sites are looked for in the code as it is. -/
theorem Context.accounts_sites (d : Draft) (p : InjectionPoint) :
    Accounts (p.places d.method.code) List.length (Context.sites d p) := by
  refine .ofFound (CodeStream.finds_locate _ _) (fun sites h => ?_) (fun _ => .ok) ?_
  · rw [← d.agrees]
    exact CodeStream.card_places_of_locate h
  · intro sites found h
    cases h
    rfl

/-- Points of a plan; a new body counts as one. -/
def Plan.points : Plan → Nat
  | .edits es _ => es.length
  | .newBody .. => 1

namespace Plan

variable {edit : Supply → α → Traced (Edit × Supply)} {m : Method} {sites : List α} {p : Plan}
  {d u : Draft} {n : Nat} {places : Except WeaveError (Finset Nat)}

theorem points_of_apply (h : p.apply.Done d n u) : p.points = n := by
  cases p with
  | edits es slots =>
    obtain ⟨_, _, -, h⟩ := InPlace.done_bind.1 h
    obtain ⟨_, _, -, h⟩ := InPlace.done_bind.1 h
    obtain ⟨_, _, -, h⟩ := InPlace.done_bind.1 h
    exact (InPlace.done_pure.1 h).1
  | newBody code maxStack maxLocals =>
    obtain ⟨_, _, -, h⟩ := InPlace.done_bind.1 h
    exact (InPlace.done_pure.1 h).1

theorem points_of_ofSites (h : (ofSites m sites edit).result = .ok p) :
    p.points = sites.length := by
  obtain ⟨⟨es, left⟩, hes, h⟩ := Traced.bind_eq_ok.1 h
  cases h
  exact length_editSites hes

theorem finds_ofSites (hedit : ∀ supply a, Finds (edit supply a).result) :
    Finds (ofSites m sites edit).result := by
  have hsites : ∀ supply, Finds (editSites edit supply sites).result := by
    induction sites with
    | nil => exact fun _ => .ok
    | cons a sites ih =>
      intro supply
      simp only [editSites, Traced.result_bind]
      exact (hedit _ _).bind fun _ => (ih _).bind fun _ => .ok
  rw [ofSites, Traced.result_bind]
  exact (hsites _).bind fun _ => .ok

end Plan

namespace Inject

variable (cx : Context) (m : Method)

theorem finds_loadSupplied (tokenSlot : UInt16) (index : Nat) (params : List Supplied) :
    Finds (loadSupplied m tokenSlot index params) := by
  induction params generalizing index with
  | nil => exact .ok
  | cons param params ih =>
    cases param with
    | token c => exact (ih _).bind fun _ => .ok
    | argument t =>
      unfold loadSupplied
      split
      · exact .error rfl
      · exact (finds_coerce _ _).bind fun _ => (ih _).bind fun _ => .ok

theorem finds_cancellation (token : ClassName) (slot : UInt16) (skip : Label) :
    Finds (cancellation cx m token slot skip) := by
  have hleave : Finds (earlyReturn cx m token slot) := by
    unfold earlyReturn
    split
    · exact .ok
    · split
      · exact (finds_coerce _ _).bind fun _ => .ok
      · exact .ok
  exact hleave.bind fun _ => .ok

theorem finds_codeFor (cancellable : Bool) (params : List Supplied) (supply : Supply) :
    Finds (codeFor cx m cancellable params supply) := by
  unfold codeFor
  split
  · exact (finds_loadSupplied _ _ _ _).bind fun _ => .ok
  · refine (Supply.finds_slot _ _).bind fun _ => (finds_loadSupplied _ _ _ _).bind fun _ => ?_
    split
    · exact (finds_cancellation _ _ _ _ _).bind fun _ => .ok
    · exact .ok

theorem finds_classify : Finds (classify cx m) := by
  unfold classify
  dsimp only
  split
  · exact .error rfl
  · split
    · exact .error rfl
    · exact .ok

theorem accounts_plan (d : Draft) (p : InjectionPoint) (cancellable : Bool) :
    Accounts (p.places d.method.code) Plan.points (plan cx d p cancellable).result := by
  have hedit (params : List Supplied) (supply : Supply) (site : Site) :
      Finds (editAt cx d.method p cancellable params supply site).result := by
    refine .guarded rfl ?_
    simp only [Traced.result_bind, Traced.result_ofExcept]
    exact Finds.ok.bind fun _ => (finds_codeFor _ _ _ _ _).bind fun _ => .ok
  simp only [plan, Traced.result_bind, Traced.result_ofExcept]
  refine (Context.accounts_sites d p).bind (fun sites => .guarded rfl ?_) fun sites plan h => ?_
  · simp only [Traced.result_bind, Traced.result_ofExcept]
    refine (finds_classify _ _).bind fun params => ?_
    split
    · exact Finds.ok.bind fun _ => Plan.finds_ofSites (hedit params)
    · exact Plan.finds_ofSites (hedit params)
  · obtain ⟨-, h⟩ := Traced.unless_fail_eq_ok.1 h
    obtain ⟨params, -, h⟩ := Traced.bind_eq_ok.1 h
    split at h
    · exact Plan.points_of_ofSites h
    · exact Plan.points_of_ofSites h

end Inject

namespace Redirect

variable (cx : Context)

theorem finds_exchange (i : Instruction) : Finds (exchange i) := by
  unfold exchange
  split
  · split
    · exact .error rfl
    · exact .ok
  all_goals first | exact .ok | exact .error rfl

theorem finds_replacement (i : Instruction) (x : Exchange) (supply : Supply) :
    Finds (replacement cx i x supply) := by
  have hresult : Finds (settleResult cx i x.produced) := by
    unfold settleResult
    split
    · exact .ok
    · exact .ok
    · exact .error rfl
    · exact finds_coerce _ _
  exact (Supply.finds_slotsFor _ _).bind fun _ => (Spill.finds_loadAs _ _).bind fun _ =>
    hresult.bind fun _ => .ok

theorem accounts_plan (d : Draft) (p : InjectionPoint) :
    Accounts (p.places d.method.code) Plan.points (plan cx d p).result := by
  have hedit (supply : Supply) (site : Site) :
      Finds (editAt cx d.method supply site).result := by
    simp only [editAt, Traced.result_bind, Traced.result_ofExcept]
    refine (finds_exchange _).bind fun _ => .guarded rfl ?_
    simp only [Traced.result_bind, Traced.result_ofExcept]
    exact Finds.ok.bind fun _ => (finds_replacement _ _ _ _).bind fun _ => .ok
  refine .guarded rfl ?_
  simp only [Traced.result_bind, Traced.result_ofExcept]
  exact (Context.accounts_sites d p).bind (fun _ => Plan.finds_ofSites hedit)
    fun _ _ => Plan.points_of_ofSites

end Redirect

namespace ModifyConstant

variable (cx : Context)

theorem accounts_plan (d : Draft) (c : ConstantMatch) :
    Accounts (c.places cx.settings.floatEpsilon d.method.code) Plan.points
      (plan cx d c).result := by
  have hedit (parameter result : ValueType) (supply : Supply) (site : Site) :
      Finds (editAt cx d.method c.value.type parameter result supply site).result := by
    simp only [editAt, Traced.result_bind, Traced.result_ofExcept]
    exact Finds.ok.bind fun _ => (Handler.finds_filter _ _ _ _).bind fun _ => .ok
  have hplan : (plan cx d c).result = (d.stream.locateConstant c cx.settings.floatEpsilon >>=
      fun sites => if sites.isEmpty then .error (.noMatch (.constant c)) else
        cx.filterTypes .constant >>= fun types =>
          (Plan.ofSites d.method sites
            (editAt cx d.method c.value.type types.1 types.2)).result) := by
    simp only [plan, Traced.result_bind, Traced.result_ofExcept, Traced.result_guarded]
    rfl
  rw [hplan]
  refine .ofFound (finds_chooseOrdinal _ _).map (fun sites h => ?_) (fun sites => ?_) ?_
  · rw [← d.agrees]
    exact CodeStream.card_places_of_locateConstant h
  · exact (Context.finds_filterTypes _ _).bind fun types => Plan.finds_ofSites (hedit _ _)
  · intro sites p h
    obtain ⟨types, -, h⟩ := bind_eq_ok.1 h
    exact Plan.points_of_ofSites h

end ModifyConstant

namespace ModifyVariable

variable (cx : Context)

theorem finds_editFor (m : Method) (p : InjectionPoint) (slot : Option UInt16)
    (parameter result : ValueType) (site : Site) :
    Finds (editFor cx m p slot parameter result site) := by
  have hfilter (k : ValueKind) : Finds (filter cx k parameter result) :=
    Handler.finds_filter _ _ _ _
  have hslot : Finds (editSlot cx m p slot parameter result site) := by
    unfold editSlot
    split
    · exact .error rfl
    · dsimp only
      split
      · exact .error rfl
      · refine (hfilter _).bind fun _ => ?_
        split
        · exact .error rfl
        · exact .ok
  unfold editFor
  split
  · exact (hfilter _).map
  · exact (hfilter _).map
  · exact hslot

theorem accounts_plan (d : Draft) (p : InjectionPoint) (slot : Option UInt16)
    (hhandler : cx.handler.reference = cx.directive.handler)
    (haction : cx.directive.action = .modifyVariable p slot) :
    Accounts (cx.directive.places cx.settings d.method.code) Plan.points
      (plan cx d p slot).result := by
  have hedit (parameter result : ValueType) (supply : Supply) (site : Site) :
      Finds (editAt cx d.method (narrowed p parameter) slot parameter result supply
        site).result := by
    simp only [editAt, Traced.result_bind, Traced.result_ofExcept]
    exact Finds.ok.bind fun _ => (finds_editFor _ _ _ _ _ _ _).bind fun _ => .ok
  simp only [plan, Traced.result_bind, Traced.result_ofExcept]
  refine .after (Context.finds_filterTypes _ _) fun types htypes => ?_
  obtain ⟨hparameters, -⟩ := Handler.filter?_eq_some (Context.filterTypes_eq_ok htypes)
  have hplaces : cx.directive.places cx.settings d.method.code =
      (narrowed p types.1).places d.method.code := by
    rw [Handler.parameters, hhandler] at hparameters
    rw [Directive.places, haction, hparameters]
  rw [hplaces]
  exact (Context.accounts_sites _ _).bind (fun _ => Plan.finds_ofSites (hedit _ _))
    fun _ _ => Plan.points_of_ofSites

end ModifyVariable

namespace CallSite

theorem accounts_locate (d : Draft) (p : InjectionPoint) :
    Accounts (p.places d.method.code) List.length (locate d p) := by
  have hfinds (site : Site) : Finds (ofSite site) := by
    unfold ofSite
    split
    · exact .ok
    · exact .error rfl
  unfold locate
  split
  · refine (Context.accounts_sites d p).bind (fun _ => .mapM hfinds) fun sites calls h => ?_
    rw [← List.length_map, (mapM_ofSite h).1, List.length_map]
  · exact .error rfl

end CallSite

namespace ModifyArgument

variable (cx : Context)

theorem finds_codeFor (parameter result modified : ValueType) (above : List ValueType)
    (supply : Supply) : Finds (codeFor cx parameter result modified above supply) :=
  (Supply.finds_slotsFor _ _).bind fun _ => (Handler.finds_filter _ _ _ _).bind fun _ => .ok

theorem finds_chooseIndex (call : MethodRef) (index : Option UInt64) (parameter : ValueType) :
    Finds (chooseIndex call index parameter) := by
  unfold chooseIndex
  split
  · split
    · exact .ok
    · exact .error rfl
  · split
    · exact .ok
    · exact .error rfl

theorem accounts_plan (d : Draft) (p : InjectionPoint) (index : Option UInt64) :
    Accounts (p.places d.method.code) Plan.points (plan cx d p index).result := by
  have hedit (parameter result : ValueType) (supply : Supply) (site : CallSite) :
      Finds (editAt cx d.method index parameter result supply site).result := by
    simp only [editAt, Traced.result_bind, Traced.result_ofExcept]
    exact (finds_chooseIndex _ _ _).bind fun _ => Finds.ok.bind fun _ =>
      (finds_codeFor _ _ _ _ _ _).bind fun _ => .ok
  simp only [plan, Traced.result_bind, Traced.result_ofExcept]
  refine (CallSite.accounts_locate d p).bind (fun sites => ?_) fun sites plan h => ?_
  · exact (Context.finds_filterTypes _ _).bind fun _ => Plan.finds_ofSites (hedit _ _)
  · obtain ⟨types, -, h⟩ := bind_eq_ok.1 h
    exact Plan.points_of_ofSites h

end ModifyArgument

namespace ModifyArguments

variable (cx : Context)

theorem finds_fill (view : ClassName) (viewSlot : UInt16) (place : Nat) (spill : Spill) :
    Finds (fill view viewSlot place spill) := by
  induction spill generalizing place with
  | nil => exact .ok
  | cons v spill ih => exact (finds_coerce _ _).bind fun _ => (ih _).bind fun _ => .ok

theorem finds_empty (view : ClassName) (viewSlot : UInt16) (place : Nat)
    (types : List ValueType) : Finds (empty view viewSlot place types) := by
  induction types generalizing place with
  | nil => exact .ok
  | cons t types ih => exact (finds_coerce _ _).bind fun _ => (ih _).bind fun _ => .ok

theorem finds_codeFor (arguments : List ValueType) (supply : Supply) :
    Finds (codeFor cx arguments supply) :=
  (Supply.finds_slotsFor _ _).bind fun _ => (Supply.finds_slot _ _).bind fun _ =>
    (finds_fill _ _ _ _).bind fun _ => (finds_empty _ _ _ _).bind fun _ => .ok

theorem accounts_plan (d : Draft) (p : InjectionPoint) :
    Accounts (p.places d.method.code) Plan.points (plan cx d p).result := by
  have hedit (supply : Supply) (site : CallSite) :
      Finds (editAt cx d.method supply site).result := by
    simp only [editAt, Traced.result_bind, Traced.result_ofExcept]
    exact Finds.ok.bind fun _ => (finds_codeFor _ _ _).bind fun _ => .ok
  refine .guarded rfl ?_
  simp only [Traced.result_bind, Traced.result_ofExcept]
  exact (CallSite.accounts_locate d p).bind (fun _ => Plan.finds_ofSites hedit)
    fun _ _ => Plan.points_of_ofSites

end ModifyArguments

namespace Overwrite

theorem accounts_plan (cx : Context) (m : Method) :
    Accounts (.ok {0}) Plan.points (plan cx m).result := by
  refine .guarded rfl (.guarded rfl ?_)
  constructor
  · intro p h
    cases h
    exact ⟨{0}, rfl, Finset.singleton_nonempty 0, rfl⟩
  · intro sought h
    cases h

end Overwrite

namespace Weaver

theorem accounts_plan (cx : Context) (d : Draft)
    (hhandler : cx.handler.reference = cx.directive.handler) :
    Accounts (cx.directive.places cx.settings d.method.code) Plan.points (plan cx d).result := by
  unfold plan
  cases haction : cx.directive.action with
  | inject p cancellable =>
    rw [Directive.places, haction]
    exact Inject.accounts_plan cx d p cancellable
  | redirect p =>
    rw [Directive.places, haction]
    exact Redirect.accounts_plan cx d p
  | modifyConstant c =>
    rw [Directive.places, haction]
    exact ModifyConstant.accounts_plan cx d c
  | modifyArgument p index =>
    rw [Directive.places, haction]
    exact ModifyArgument.accounts_plan cx d p index
  | modifyArguments p =>
    rw [Directive.places, haction]
    exact ModifyArguments.accounts_plan cx d p
  | modifyVariable p slot => exact ModifyVariable.accounts_plan cx d p slot hhandler haction
  | overwrite =>
    rw [Directive.places, haction]
    exact Overwrite.accounts_plan cx d.method

/-- A method is woven into at as many points as there are places in its code, of which there is one
at least, and it is passed by for want of a match only if there is none. -/
theorem accounts_weaveMethod (cx : Context) (d : Draft)
    (hhandler : cx.handler.reference = cx.directive.handler) :
    Accounts (cx.directive.places cx.settings d.method.code) id ((weaveMethod cx).result d) := by
  have hplan := accounts_plan cx d hhandler
  constructor
  · intro n h
    obtain ⟨p, edited, hp, happly, -⟩ := done_weaveMethod.1 ⟨h, rfl⟩
    obtain ⟨s, hs, hne, hcard⟩ := hplan.counted p hp
    exact ⟨s, hs, hne, (Plan.points_of_apply happly).symm.trans hcard⟩
  · intro sought h
    rcases failed_weaveMethod.1 ⟨h, rfl⟩ with ⟨h, -⟩ | ⟨p, -, h | ⟨_, _, -, h⟩⟩
    · exact hplan.missed sought h
    -- Once there is a plan, what goes wrong has other names.
    · cases (Plan.exists_invariant_of_failed h).choose_spec
    · rcases cause_of_check_failed h with ⟨_, h⟩ | h <;> cases h

/-- What a directive is woven with into the methods of a class. -/
abbrev contextOf (settings : Settings) (name : ClassName) (d : Directive) (body : Method) :
    Context :=
  ⟨settings, name, d, ⟨d.handler, body⟩⟩

section

variable {settings : Settings} {name : ClassName} {d : Directive} {body : Method} {m : Method}

theorem points_of_weaveMethod {n : Nat}
    (h : (weaveMethod (contextOf settings name d body)).result (Draft.ofMethod m) = .ok n) :
    n = d.pointsIn settings m.code ∧ 0 < n := by
  obtain ⟨s, hs, hne, hcard⟩ := (accounts_weaveMethod _ _ rfl).counted n h
  obtain rfl : n = s.card := hcard
  have hs : d.places settings m.code = .ok s := hs
  rw [Directive.pointsIn, hs]
  exact ⟨rfl, Finset.card_pos.2 hne⟩

theorem pointsIn_of_noMatch {sought : Sought}
    (h : (weaveMethod (contextOf settings name d body)).result (Draft.ofMethod m) =
      .error (.noMatch sought)) : d.pointsIn settings m.code = 0 := by
  have hs : d.places settings m.code = .ok ∅ := (accounts_weaveMethod _ _ rfl).missed sought h
  rw [Directive.pointsIn, hs]
  rfl

end

end Weaver

end CodeWeaving
