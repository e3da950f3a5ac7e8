import CodeWeaving.Json.Decode
import CodeWeaving.Proofs.Depth.Labels
import CodeWeaving.Proofs.Descriptor.WrittenForm

/-! What is read back of a JSON value that was printed, and what decoders make of it. -/
namespace CodeWeaving

namespace Json

mutual

/-- The second value is what is read where the first was printed. Numbers with a fraction come back
as doubles; what is not finite is printed as `null`. -/
inductive Reread : Json → Json → Prop where
  | null : Reread .null .null
  | bool (b : Bool) : Reread (.bool b) (.bool b)
  | integer (n : Int) : Reread (.integer n) (.integer n)
  | single {x : Float32} {y : Float} (hfinite : x.isFinite = true) (h : y.toFloat32 = x) :
    Reread (.single x) (.double y)
  | double {x : Float} (hfinite : x.isFinite = true) : Reread (.double x) (.double x)
  | lostSingle {x : Float32} (h : x.isFinite = false) : Reread (.single x) .null
  | lostDouble {x : Float} (h : x.isFinite = false) : Reread (.double x) .null
  | string (s : String) : Reread (.string s) (.string s)
  | array {items items' : List Json} (h : RereadItems items items') :
    Reread (.array items) (.array items')
  | object {members members' : List (String × Json)} (h : RereadMembers members members') :
    Reread (.object members) (.object members')

inductive RereadItems : List Json → List Json → Prop where
  | nil : RereadItems [] []
  | cons {v v' : Json} {items items' : List Json} (hv : Reread v v')
    (h : RereadItems items items') : RereadItems (v :: items) (v' :: items')

inductive RereadMembers : List (String × Json) → List (String × Json) → Prop where
  | nil : RereadMembers [] []
  | cons (name : String) {v v' : Json} {members members' : List (String × Json)}
    (hv : Reread v v') (h : RereadMembers members members') :
    RereadMembers ((name, v) :: members) ((name, v') :: members')

end

theorem Reread.of_tagged {tag : String} {v w : Json} (h : (Json.tagged tag v).Reread w) :
    ∃ v', w = .tagged tag v' ∧ v.Reread v' := by
  cases h with
  | object h =>
    cases h with
    | cons _ hv h =>
      cases h
      exact ⟨_, rfl, hv⟩

end Json

variable {α β : Type}

/-- The decoder finds the value again, whatever is read of the JSON value printed for it. -/
def Recovers (decode : Decoder α) (v : Json) (a : α) : Prop := ∀ w, v.Reread w → decode w = .ok a

namespace Recovers

variable {decode : Decoder α} {decode' : Decoder β} {v v' : Json} {a : α} {b : β}

theorem map (h : Recovers decode v a) (f : α → β) :
    Recovers (fun v => (decode v).map f) v (f a) := by
  intro w hw
  dsimp only
  rw [h w hw]
  rfl

theorem bool (b : Bool) : Recovers Decode.bool (.bool b) b := by
  rintro w ⟨⟩
  rfl

theorem string (s : String) : Recovers Decode.string (.string s) s := by
  rintro w ⟨⟩
  rfl

theorem integer {low high n : Int} (hlow : low ≤ n) (hhigh : n < high) :
    Recovers (Decode.integer low high) (.integer n) n := by
  rintro w ⟨⟩
  exact if_pos ⟨hlow, hhigh⟩

theorem natural {n high : Nat} (h : n < high) : Recovers (Decode.natural high) (.ofNat n) n :=
  (integer (Int.natCast_nonneg n) (Int.ofNat_lt.2 h)).map Int.toNat

theorem uint8 (n : UInt8) : Recovers Decode.uint8 (.ofNat n.toNat) n := by
  have h := (natural n.toNat_lt).map UInt8.ofNat
  rwa [UInt8.ofNat_toNat] at h

theorem uint16 (n : UInt16) : Recovers Decode.uint16 (.ofNat n.toNat) n := by
  have h := (natural n.toNat_lt).map UInt16.ofNat
  rwa [UInt16.ofNat_toNat] at h

theorem uint32 (n : UInt32) : Recovers Decode.uint32 (.ofNat n.toNat) n := by
  have h := (natural n.toNat_lt).map UInt32.ofNat
  rwa [UInt32.ofNat_toNat] at h

theorem int32 (n : Int32) : Recovers Decode.int32 (.integer n.toInt) n := by
  have h := (integer n.le_toInt n.toInt_lt).map Int32.ofInt
  rwa [Int32.ofInt_toInt] at h

theorem int64 (n : Int64) : Recovers Decode.int64 (.integer n.toInt) n := by
  have h := (integer n.le_toInt n.toInt_lt).map Int64.ofInt
  rwa [Int64.ofInt_toInt] at h

theorem single {x : Float32} (h : x.isFinite = true) : Recovers Decode.single (.single x) x := by
  intro w hw
  cases hw with
  | single _ hsame => exact congrArg Except.ok hsame
  | lostSingle hlost => cases h.symm.trans hlost

theorem double {x : Float} (h : x.isFinite = true) : Recovers Decode.double (.double x) x := by
  intro w hw
  cases hw with
  | double => rfl
  | lostDouble hlost => cases h.symm.trans hlost

theorem list {encode : α → Json} {l : List α} (h : ∀ a ∈ l, Recovers decode (encode a) a) :
    Recovers (Decode.list decode) (.ofList encode l) l := by
  intro w hw
  cases hw with
  | array hitems =>
    rename_i items
    show items.mapM decode = .ok l
    induction l generalizing items with
    | nil =>
      cases hitems
      rfl
    | cons a l ih =>
      obtain ⟨hfirst, hrest⟩ := List.forall_mem_cons.1 h
      cases hitems with
      | cons hv hitems =>
        rw [List.mapM_cons, hfirst _ hv, ih hrest hitems]
        rfl

theorem nullable {encode : α → Json} {o : Option α}
    (h : ∀ a ∈ o, Recovers decode (encode a) a ∧ ∀ w, (encode a).Reread w → w ≠ .null) :
    Recovers (Decode.nullable decode) (.ofOption encode o) o := by
  intro w hw
  cases o with
  | none =>
    cases hw
    rfl
  | some a =>
    obtain ⟨hrecovers, hne⟩ := h a rfl
    unfold Decode.nullable
    split
    · exact absurd rfl (hne _ hw)
    · rw [hrecovers w hw]
      rfl

theorem pair (ha : Recovers decode v a) (hb : Recovers decode' v' b) :
    Recovers (Decode.pair decode decode') (.array [v, v']) (a, b) := by
  intro w hw
  cases hw with
  | array h =>
    cases h with
    | cons hv h =>
      cases h with
      | cons hv' h =>
        cases h
        rw [Decode.pair, ha _ hv, hb _ hv']
        rfl

theorem named {all : List α} {name : α → String}
    (h : all.find? (fun b => name b = name a) = some a) :
    Recovers (Decode.named all name) (.string (name a)) a := by
  rintro w ⟨⟩
  simp [Decode.named, Decode.tagged, bind_eq_ok, h, Decode.nothing]

/-- A text that a parser takes for the value. -/
theorem parsed {ε : Type} {parse : String → Except ε α} {f : ε → DecodeError} {s : String}
    (h : parse s = .ok a) :
    Recovers (fun v => do (parse (← Decode.string v)).mapError f) (.string s) a := by
  rintro w ⟨⟩
  show (parse s).mapError f = .ok a
  rw [h]
  rfl

theorem memberName (n : MemberName) : Recovers Decode.memberName (.string n.text) n :=
  parsed (MemberName.ofString?_eq_ok.2 rfl)

theorem className (c : ClassName) : Recovers Decode.className (.string c.text) c :=
  parsed (ClassName.ofString?_eq_ok.2 rfl)

theorem valueType (t : ValueType) : Recovers Decode.valueType (.string t.render) t :=
  parsed ((ValueType.inverts_read.whole t).2 rfl)

theorem refType (t : RefType) : Recovers Decode.refType (.string t.render) t :=
  parsed ((RefType.inverts_read.whole t).2 rfl)

theorem signature (s : Signature) : Recovers Decode.signature (.string s.render) s :=
  parsed ((Signature.inverts_read.whole s).2 rfl)

/-- Where an object has one member of a name, its value is found again under that name. -/
theorem member? {ms ms' : List (String × Json)} {name : String}
    (h : Json.RereadMembers ms ms') (hv : (ms.filter fun m => m.1 = name) = [(name, v)]) :
    ∃ w, Decode.member? ms' name = .ok (some w) ∧ v.Reread w := by
  -- Names are read as they are, so the same members are picked out before and after.
  have hfilter : Json.RereadMembers (ms.filter fun m => m.1 = name)
      (ms'.filter fun m => m.1 = name) := by
    clear hv
    induction ms generalizing ms' with
    | nil =>
      cases h
      exact .nil
    | cons m ms ih =>
      cases h with
      | cons n hv h =>
        rw [List.filter_cons, List.filter_cons]
        dsimp only
        split
        · exact .cons n hv (ih h)
        · exact ih h
  rw [hv] at hfilter
  unfold Decode.member?
  revert hfilter
  generalize (ms'.filter fun m => m.1 = name) = found
  intro hfilter
  cases hfilter with
  | cons _ hv h =>
    cases h
    exact ⟨_, rfl, hv⟩

section

variable {ms ms' : List (String × Json)} (name : String) (h : Json.RereadMembers ms ms')

include h

theorem member (hv : (ms.filter fun m => m.1 = name) = [(name, v)]) (ha : Recovers decode v a) :
    Decode.member name decode ms' = .ok a := by
  obtain ⟨w, hw, hreread⟩ := member? h hv
  rw [Decode.member, hw]
  exact ha w hreread

theorem memberOr (hv : (ms.filter fun m => m.1 = name) = [(name, v)]) (ha : Recovers decode v a)
    (default : α) : Decode.memberOr name decode default ms' = .ok a := by
  obtain ⟨w, hw, hreread⟩ := member? h hv
  rw [Decode.memberOr, hw]
  exact ha w hreread

end

end Recovers

end CodeWeaving
