import CodeWeaving.Proofs.Machine.FilteredValues
import CodeWeaving.Proofs.Weaving.Points

/-! Integers pushed in short forms: what is planned for a literal does not depend on the form in
which any of the integers of a method are pushed. -/
namespace CodeWeaving

/-- The last bytes of a number in two's complement, the high one first. -/
def lastBytes (value : Int) : Nat → List UInt8
  | 0 => []
  | n + 1 => lastBytes (value / 256) n ++ [UInt8.ofInt value]

/-- The second instruction pushes the integer that the first pushes, from one byte or from two. What
it declares to do to the stack may be anything. -/
inductive Instruction.Shortens : Instruction → Instruction → Prop
  | byte {value : Int32} (pops pushes : UInt8) : -128 ≤ value.toInt → value.toInt ≤ 127 →
      Shortens (.pushConstant (.int value))
        (.raw ⟨Opcode.bipush, lastBytes value.toInt 1, pops, pushes⟩)
  | short {value : Int32} (pops pushes : UInt8) : -32768 ≤ value.toInt → value.toInt ≤ 32767 →
      Shortens (.pushConstant (.int value))
        (.raw ⟨Opcode.sipush, lastBytes value.toInt 2, pops, pushes⟩)

/-- The second code is the first with some of its integers pushed in short forms. -/
def Code.Shortens (code short : Code) : Prop :=
  List.Forall₂ (fun i j => i = j ∨ i.Shortens j) code short

/-- The second method is the first with some of its integers pushed in short forms. -/
structure Method.Shortens (m short : Method) : Prop where
  code : m.code.Shortens short.code
  rest : short = { m with code := short.code }

section Bytes

variable {value : Int}

theorem toNat_lastByte (value : Int) : (UInt8.ofInt value).toNat = (value % 256).toNat :=
  UInt8.toNat_ofNat_of_lt' (show _ < 256 by omega)

theorem toInt_signedByte (hlow : -128 ≤ value) (hhigh : value ≤ 127) :
    (UInt8.ofInt value).toInt8.toInt = value := by
  have hsigned : (UInt8.ofInt value).toInt8.toInt = ((UInt8.ofInt value).toNat : Int).bmod 256 :=
    BitVec.toInt_eq_toNat_bmod _
  rw [hsigned, toNat_lastByte, Int.toNat_of_nonneg (by omega), Int.bmod]
  split <;> omega

/-- Two bytes side by side, the high one first. -/
theorem toNat_joined (high low : UInt8) :
    (high.toUInt16 <<< 8 ||| low.toUInt16).toNat = high.toNat * 256 + low.toNat := by
  have hhigh : high.toNat < 256 := high.toNat_lt
  have hshift : (high.toUInt16 <<< 8).toNat = high.toNat <<< 8 := by
    rw [UInt16.toNat_shiftLeft, UInt8.toNat_toUInt16]
    refine Nat.mod_eq_of_lt (show high.toNat <<< 8 < 65536 from ?_)
    rw [Nat.shiftLeft_eq]
    omega
  rw [UInt16.toNat_or, hshift, UInt8.toNat_toUInt16,
    ← Nat.shiftLeft_add_eq_or_of_lt low.toNat_lt, Nat.shiftLeft_eq]

theorem toInt_signedShort (hlow : -32768 ≤ value) (hhigh : value ≤ 32767) :
    ((UInt8.ofInt (value / 256)).toUInt16 <<< 8 ||| (UInt8.ofInt value).toUInt16).toInt16.toInt =
      value := by
  have hsigned (u : UInt16) : u.toInt16.toInt = (u.toNat : Int).bmod 65536 :=
    BitVec.toInt_eq_toNat_bmod _
  rw [hsigned, toNat_joined, toNat_lastByte, toNat_lastByte, Int.bmod]
  split <;> omega

end Bytes

namespace Instruction.Shortens

variable {i j : Instruction}

/-- Both push the same literal. -/
theorem literal?_eq (h : i.Shortens j) : j.literal? = i.literal? := by
  cases h with
  | @byte value pops pushes hlow hhigh =>
    have hvalue : (UInt8.ofInt value.toInt).toInt8.toInt32 = value := by
      rw [← Int32.toInt_inj, Int8.toInt_toInt32]
      exact toInt_signedByte hlow hhigh
    exact congrArg (fun k => some (Constant.int k)) hvalue
  | @short value pops pushes hlow hhigh =>
    have hvalue : ((UInt8.ofInt (value.toInt / 256)).toUInt16 <<< 8 |||
        (UInt8.ofInt value.toInt).toUInt16).toInt16.toInt32 = value := by
      rw [← Int32.toInt_inj, Int16.toInt_toInt32]
      exact toInt_signedShort hlow hhigh
    have hopcode : Opcode.sipush ≠ Opcode.bipush := by decide
    simp only [literal?, hopcode, ↓reduceIte]
    exact congrArg (fun k => some (Constant.int k)) hvalue

theorem localsNeeded_eq (h : i.Shortens j) : j.localsNeeded = i.localsNeeded := by
  cases h <;> rfl

end Instruction.Shortens

namespace Code

variable {code short : Code}

/-- Tests that take short forms like others are passed at the same positions. -/
theorem positions_congr {test : Instruction → Bool}
    (h : List.Forall₂ (fun i j => test i = test j) code short) :
    code.positions test = short.positions test := by
  have hfrom (n : Nat) : ((code.zipIdx n).filter fun x => test x.1).map Prod.snd =
      ((short.zipIdx n).filter fun x => test x.1).map Prod.snd := by
    induction h generalizing n with
    | nil => rfl
    | cons hij _ ih =>
      rw [List.zipIdx_cons, List.zipIdx_cons, List.filter_cons, List.filter_cons, hij]
      split
      · exact congrArg (n :: ·) (ih (n + 1))
      · exact ih (n + 1)
  exact hfrom 0

theorem Shortens.positions_eq (h : code.Shortens short) (P : Constant → Bool) :
    short.positions (fun i => i.literal?.any P) = code.positions fun i => i.literal?.any P := by
  refine (positions_congr (h.imp fun i j hij => ?_)).symm
  rcases hij with rfl | hij
  · rfl
  · rw [hij.literal?_eq]

theorem Shortens.localsNeeded_eq (h : code.Shortens short) (n : Nat) :
    short.localsNeeded n = code.localsNeeded n := by
  unfold localsNeeded
  induction h generalizing n with
  | nil => rfl
  | @cons i j _ _ hij _ ih =>
    have hsame : j.localsNeeded = i.localsNeeded := by
      rcases hij with rfl | hij
      · rfl
      · exact hij.localsNeeded_eq
    rw [List.foldl_cons, List.foldl_cons, hsame, ih]

end Code

/-- No slot is freed or taken up. -/
theorem Method.Shortens.localsInUse_eq {m short : Method} (h : m.Shortens short) :
    short.localsInUse = m.localsInUse := by
  have hlocals := h.code.localsNeeded_eq m.parameterLength
  rw [h.rest]
  exact congrArg (max m.maxLocals.toNat) hlocals

namespace ModifyConstant

variable {cx : Context} {c : ConstantMatch} {m : Method} {literal parameter result : ValueType}
  {sites : List Site} {supply : Supply} {new : Code} {places : List Nat}

/-- Where in some code the literals are that match. -/
def placesIn (cx : Context) (code : Code) (c : ConstantMatch) : Except WeaveError (List Nat) :=
  chooseOrdinal (code.positions fun i => i.literal?.any fun pushed =>
    CodeStream.literalsMatch cx.settings.floatEpsilon pushed c.value) c.ordinal

/-- The code that goes right after each literal that matches. -/
def inserted (cx : Context) (c : ConstantMatch) : Except WeaveError Code :=
  cx.filterTypes .constant >>= fun types => cx.handler.filter c.value.type types.1 types.2

/-- The same insertion after the instruction at each place. -/
def insertions (s : CodeStream) (places : List Nat) (new : Code) : List Edit :=
  places.map fun p => .insertAfter (s.anchorAt p) new

theorem insertions_eq {s : CodeStream} (h : ∀ p ∈ places, p < s.instructions.length) (new : Code) :
    insertions s places new = (s.sites places).map fun site => .insertAfter site.anchor new := by
  have hanchors := congrArg (List.map fun a => Edit.insertAfter a new)
    (CodeStream.map_anchor_sites h)
  rw [List.map_map, List.map_map] at hanchors
  exact hanchors.symm

theorem result_editSites (h : cx.handler.filter literal parameter result = .ok new) :
    (Plan.editSites (editAt cx m literal parameter result) supply sites).result =
      .ok (sites.map fun site => .insertAfter site.anchor new, supply) := by
  induction sites with
  | nil => rfl
  | cons site sites ih =>
    have hedit : (editAt cx m literal parameter result supply site).result =
        .ok (.insertAfter site.anchor new, supply) := by
      simp only [editAt, Traced.result_bind, Traced.result_ofExcept, h]
      rfl
    simp only [Plan.editSites, Traced.result_bind, hedit]
    change Except.bind (Plan.editSites _ supply sites).result _ = _
    rw [ih]
    rfl

/-- The code goes after each site, where there is one. -/
theorem result_ofSites (m : Method) (hne : sites ≠ []) :
    (Plan.ofSites m sites (editAt cx m literal parameter result)).result =
      (cx.handler.filter literal parameter result).map fun new =>
        .edits (sites.map fun site => .insertAfter site.anchor new) (SlotAllocator.ofMethod m) := by
  rw [Plan.ofSites, Traced.result_bind]
  cases hfilter : cx.handler.filter literal parameter result with
  | ok new =>
    rw [result_editSites hfilter]
    rfl
  | error e =>
    obtain ⟨site, sites, rfl⟩ := List.exists_cons_of_ne_nil hne
    simp only [Plan.editSites, editAt, Traced.result_bind, Traced.result_ofExcept, hfilter]
    rfl

theorem sorted_of_placesIn {code : Code} (h : placesIn cx code c = .ok places) :
    places.Pairwise (· < ·) :=
  Code.sorted_positions.sublist (sublist_of_chooseOrdinal h)

theorem lt_of_placesIn {code : Code} (h : placesIn cx code c = .ok places) :
    ∀ p ∈ places, p < code.length :=
  fun _ hp => Code.lt_of_mem_positions ((sublist_of_chooseOrdinal h).subset hp)

theorem result_plan_of_sites {d : Draft} {sites : List Site}
    (h : d.stream.locateConstant c cx.settings.floatEpsilon = .ok sites) (hne : sites ≠ []) :
    (plan cx d c).result = (inserted cx c).map fun new =>
      .edits (sites.map fun site => .insertAfter site.anchor new)
        (SlotAllocator.ofMethod d.method) := by
  have hsome : ¬ sites.isEmpty = true := by simp [hne]
  have hplan : (plan cx d c).result = cx.filterTypes .constant >>= fun types =>
      (Plan.ofSites d.method sites (editAt cx d.method c.value.type types.1 types.2)).result := by
    simp only [plan, Traced.result_bind, Traced.result_ofExcept, h]
    change Traced.result (if _ then _ else _) = _
    rw [if_neg hsome]
    simp only [Traced.result_bind, Traced.result_ofExcept]
    rfl
  rw [hplan, inserted]
  cases cx.filterTypes .constant with
  | error e => rfl
  | ok types => exact result_ofSites d.method hne

/-- The plan in terms of the places and of the code that is inserted. -/
theorem result_plan (cx : Context) (d : Draft) (c : ConstantMatch) : (plan cx d c).result =
    (placesIn cx d.method.code c >>= fun places =>
      if places = [] then .error (.noMatch (.constant c)) else
        (inserted cx c).map fun new =>
          .edits (insertions d.stream places new) (SlotAllocator.ofMethod d.method)) := by
  have hlocate : d.stream.locateConstant c cx.settings.floatEpsilon =
      (placesIn cx d.method.code c).map d.stream.sites := by
    rw [← d.agrees]
    rfl
  cases hplaces : placesIn cx d.method.code c with
  | error e =>
    rw [hplaces] at hlocate
    simp only [plan, Traced.result_bind, Traced.result_ofExcept, hlocate]
    rfl
  | ok places =>
    rw [hplaces] at hlocate
    have hbelow : ∀ p ∈ places, p < d.stream.instructions.length :=
      d.agrees ▸ lt_of_placesIn hplaces
    cases places with
    | nil =>
      simp only [plan, Traced.result_bind, Traced.result_ofExcept, hlocate]
      rfl
    | cons p places =>
      have hne : d.stream.sites (p :: places) ≠ [] := by
        obtain ⟨i, -, hsites⟩ := CodeStream.sites_cons (hbelow p List.mem_cons_self)
        rw [hsites]
        exact List.cons_ne_nil _ _
      rw [result_plan_of_sites hlocate hne]
      simp only [← insertions_eq hbelow]
      rfl

/-- Two outcomes of planning, each for a stream of its own: one error, or the same code put in after
the instructions at the same places, in program order. -/
inductive SameInsertions (s t : CodeStream) : Except WeaveError Plan → Except WeaveError Plan → Prop
  | failed (e : WeaveError) : SameInsertions s t (.error e) (.error e)
  | planned {places : List Nat} (new : Code) (slots : SlotAllocator) :
      places ≠ [] → places.Pairwise (· < ·) →
      (∀ p ∈ places, p < s.instructions.length ∧ p < t.instructions.length) →
      SameInsertions s t (.ok (.edits (insertions s places new) slots))
        (.ok (.edits (insertions t places new) slots))

/-- What is planned for a literal does not depend on which integers are pushed in short forms. -/
theorem plan_of_shortened (cx : Context) (c : ConstantMatch) (d short : Draft)
    (h : d.method.Shortens short.method) :
    SameInsertions d.stream short.stream (plan cx d c).result (plan cx short c).result := by
  have hplaces : placesIn cx short.method.code c = placesIn cx d.method.code c := by
    rw [placesIn, placesIn, h.code.positions_eq]
  have hslots : SlotAllocator.ofMethod short.method = SlotAllocator.ofMethod d.method :=
    congrArg SlotAllocator.mk h.localsInUse_eq
  rw [result_plan, result_plan, hplaces, hslots]
  cases hfound : placesIn cx d.method.code c with
  | error e => exact .failed e
  | ok places =>
    have hlength : d.stream.instructions.length = short.stream.instructions.length := by
      rw [d.agrees, short.agrees]
      exact h.code.length_eq
    have hbelow : ∀ p ∈ places, p < d.stream.instructions.length :=
      d.agrees ▸ lt_of_placesIn hfound
    change SameInsertions _ _ (if _ then _ else _) (if _ then _ else _)
    split
    · exact .failed _
    · rename_i hne
      cases inserted cx c with
      | error e => exact .failed e
      | ok new =>
        exact .planned new _ hne (sorted_of_placesIn hfound) fun p hp =>
          ⟨hbelow p hp, hlength ▸ hbelow p hp⟩

/-- Pushes a number three times, and its opposite. -/
def longPushes : Method :=
  { Redirect.callingMethod with
    code := [.pushConstant (.int 300), .pushConstant (.int (-300)), .pushConstant (.int 300),
      .pushConstant (.int 300), .ret (some .int)] }

/-- One of the pushes stays as it is. -/
def shortPushes : Method :=
  { longPushes with
    code := [.pushConstant (.int 300), .raw ⟨Opcode.sipush, [0xfe, 0xd4], 0, 1⟩,
      .raw ⟨Opcode.sipush, [1, 44], 0, 1⟩, .raw ⟨Opcode.sipush, [1, 44], 0, 1⟩,
      .ret (some .int)] }

def thirdMatch : ConstantMatch := ⟨.int 300, 2⟩

def thirdContext : Context := Weaver.filterContext (.modifyConstant thirdMatch)

/-- The third match is one that has been shortened. -/
theorem plan_of_shortPushes : longPushes.Shortens shortPushes ∧
    SameInsertions (Draft.ofMethod longPushes).stream (Draft.ofMethod shortPushes).stream
      (plan thirdContext (Draft.ofMethod longPushes) thirdMatch).result
      (plan thirdContext (Draft.ofMethod shortPushes) thirdMatch).result ∧
    ∃ new slots, (plan thirdContext (Draft.ofMethod shortPushes) thirdMatch).result =
      .ok (.edits [.insertAfter ⟨0, 3⟩ new] slots) := by
  have h : longPushes.Shortens shortPushes := by
    refine ⟨.cons (.inl rfl) (.cons (.inr ?_) (.cons (.inr ?_) (.cons (.inr ?_)
      (.cons (.inl rfl) .nil)))), rfl⟩
    all_goals exact .short 0 1 (by decide) (by decide)
  exact ⟨h, plan_of_shortened thirdContext thirdMatch (.ofMethod longPushes)
    (.ofMethod shortPushes) h, _, _, rfl⟩

end ModifyConstant

end CodeWeaving
