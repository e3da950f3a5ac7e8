import Mathlib.Data.List.TakeWhile
import CodeWeaving.Descriptor.Parser

/-! Written descriptors: what can be read is what has been written, and the texts of types and
signatures are those of a small grammar. -/
namespace CodeWeaving

variable {α β : Type} {cs rest name : List Char} {text : String}

theorem MemberName.ofString?_eq_ok {n : MemberName} : ofString? text = .ok n ↔ n.text = text := by
  unfold ofString?
  constructor
  · intro h
    split at h
    · cases h
      rfl
    · cases h
  · rintro rfl
    split
    · rfl
    · rename_i e he
      rw [fault?_eq_none_iff.2 n.valid] at he
      cases he

namespace ClassName

theorem ofString?_eq_ok {c : ClassName} : ofString? text = .ok c ↔ c.text = text := by
  unfold ofString?
  constructor
  · intro h
    split at h
    · cases h
      rfl
    · cases h
  · rintro rfl
    split
    · rfl
    · rename_i e he
      rw [fault?_eq_none_iff.2 c.valid] at he
      cases he

/-- All but the slashes of a name are in its segments. -/
theorem exists_segment {c : Char} (hc : c ∈ cs) (hslash : c ≠ '/') :
    ∃ s ∈ segments cs, c ∈ s := by
  induction cs with
  | nil => cases hc
  | cons d cs ih =>
    unfold segments
    by_cases hd : d = '/'
    · rw [if_pos hd]
      rcases List.mem_cons.1 hc with rfl | hc
      · exact absurd hd hslash
      · obtain ⟨s, hs, hmem⟩ := ih hc
        exact ⟨s, List.mem_cons_of_mem _ hs, hmem⟩
    · rw [if_neg hd]
      rcases List.mem_cons.1 hc with rfl | hc
      · split
        · exact ⟨[c], List.mem_singleton_self _, List.mem_singleton_self _⟩
        · exact ⟨_, List.mem_cons_self, List.mem_cons_self⟩
      · obtain ⟨s, hs, hmem⟩ := ih hc
        split
        · rename_i hnil
          rw [hnil] at hs
          cases hs
        · rename_i first others hcons
          rw [hcons] at hs
          rcases List.mem_cons.1 hs with rfl | hs
          · exact ⟨_, List.mem_cons_self, List.mem_cons_of_mem _ hmem⟩
          · exact ⟨s, List.mem_cons_of_mem _ hs, hmem⟩

/-- Of the separators a name holds none but slashes, so that the first other one ends it. -/
theorem separator_notMem {x : Char} (h : Valid cs) (hx : MemberName.isSeparator x = true)
    (hslash : x ≠ '/') : x ∉ cs := by
  intro hmem
  obtain ⟨s, hs, hc⟩ := exists_segment hmem hslash
  have hnone : s.any MemberName.isSeparator = false := (h s hs).1
  have hsome : s.any MemberName.isSeparator = true := List.any_eq_true.2 ⟨x, hc, hx⟩
  rw [hnone] at hsome
  cases hsome

theorem readTail_eq_ok {c : ClassName} :
    readTail cs = .ok (c, rest) ↔ cs = c.text.toList ++ ';' :: rest := by
  constructor
  · intro h
    unfold readTail at h
    split at h
    · cases h
    · rename_i d r hdrop
      split at h
      · rename_i c' hname
        cases h
        have hd : d = ';' := by
          have hhead := List.head?_dropWhile_not (fun x => decide (x ≠ ';')) cs
          rw [hdrop] at hhead
          simpa using hhead
        subst hd
        rw [ofString?_eq_ok.1 hname, String.toList_ofList, ← hdrop, List.takeWhile_append_dropWhile]
      · cases h
  · rintro rfl
    have hkept : ∀ x ∈ c.text.toList, decide (x ≠ ';') = true := by
      intro x hx
      apply decide_eq_true
      rintro rfl
      exact separator_notMem c.valid (by decide) (by decide) hx
    have hdrop : (c.text.toList ++ ';' :: rest).dropWhile (fun x => decide (x ≠ ';')) =
        ';' :: rest := by
      rw [List.dropWhile_append_of_pos hkept]
      exact List.dropWhile_cons_of_neg (by decide)
    have htake : (c.text.toList ++ ';' :: rest).takeWhile (fun x => decide (x ≠ ';')) =
        c.text.toList := by
      rw [List.takeWhile_append_of_pos hkept, List.takeWhile_cons_of_neg (by decide),
        List.append_nil]
    have hname : ofString? (String.ofList c.text.toList) = .ok c :=
      ofString?_eq_ok.2 String.ofList_toList.symm
    unfold readTail
    rw [hdrop, htake, hname]

end ClassName

/-- The reader takes just what a value is written as off the front of a text, whatever follows. -/
def DescriptorReader.Inverts (read : DescriptorReader α) (chars : α → List Char) : Prop :=
  ∀ cs a rest, read cs = .ok (a, rest) ↔ cs = chars a ++ rest

namespace DescriptorReader

variable {read : DescriptorReader α} {chars : α → List Char}

theorem Inverts.whole (h : Inverts read chars) (a : α) :
    whole read text = .ok a ↔ text = String.ofList (chars a) := by
  have hread : read text.toList = .ok (a, []) ↔ text = String.ofList (chars a) := by
    rw [h, List.append_nil, ← String.toList_inj, String.toList_ofList]
  rw [← hread]
  unfold DescriptorReader.whole
  constructor
  · intro hwhole
    split at hwhole
    · rename_i b hb
      cases hwhole
      exact hb
    · cases hwhole
    · cases hwhole
  · intro hok
    rw [hok]

/-- Different values are written differently. -/
theorem Inverts.injective (h : Inverts read chars) :
    Function.Injective fun a => String.ofList (chars a) := by
  intro a b hab
  have ha := (h.whole a).2 rfl
  have hb := (h.whole b).2 hab
  rw [ha] at hb
  cases hb
  rfl

end DescriptorReader

theorem map_pair_eq_ok {x : Except DescriptorError (α × List Char)} {f : α → β} {b : β} :
    (x.map fun (a, r) => (f a, r)) = .ok (b, rest) ↔ ∃ a, x = .ok (a, rest) ∧ f a = b := by
  cases x with
  | error e => simp [Except.map]
  | ok p =>
    obtain ⟨a, r⟩ := p
    simp only [Except.map, Except.ok.injEq, Prod.mk.injEq]
    constructor
    · rintro ⟨hb, hr⟩
      exact ⟨a, ⟨rfl, hr⟩, hb⟩
    · rintro ⟨a', ⟨rfl, hr⟩, hb⟩
      exact ⟨hb, hr⟩

open DescriptorReader

theorem BaseType.inverts_read : Inverts read chars := by
  intro cs b rest
  cases cs with
  | nil => simp [read, chars]
  | cons c cs =>
    simp only [read]
    constructor
    · intro h
      split at h
      · rename_i b' hb
        cases h
        have hc := ofLetter?_eq_some hb
        simp [chars, hc]
      · cases h
    · intro h
      obtain ⟨rfl, rfl⟩ : c = b.letter ∧ cs = rest := by simpa [chars] using h
      simp [ofLetter?_letter]

theorem ClassName.inverts_read : Inverts read chars := by
  intro cs c rest
  unfold chars
  constructor
  · intro h
    unfold read at h
    split at h
    · rw [readTail_eq_ok.1 h]
      simp
    · cases h
  · rintro rfl
    exact readTail_eq_ok.2 (by simp)

namespace RefType

theorem readArray_eq_ok {n : Nat} {r : RefType} : readArray n cs = .ok (r, rest) ↔
    (∃ c : ClassName, r = .objectArray n c ∧ cs = c.chars ++ rest) ∨
      ∃ b : BaseType, r = .primitiveArray n b ∧ cs = b.chars ++ rest := by
  unfold readArray
  split
  · rename_i cs
    rw [map_pair_eq_ok]
    constructor
    · rintro ⟨c, hc, rfl⟩
      rw [ClassName.readTail_eq_ok.1 hc]
      exact .inl ⟨c, rfl, by simp [ClassName.chars]⟩
    · rintro (⟨c, rfl, hcs⟩ | ⟨b, rfl, hcs⟩)
      · exact ⟨c, (ClassName.inverts_read _ c rest).2 hcs, rfl⟩
      · cases b <;> cases hcs
  · rename_i hL
    rw [map_pair_eq_ok]
    constructor
    · rintro ⟨b, hb, rfl⟩
      exact .inr ⟨b, rfl, (BaseType.inverts_read _ b rest).1 hb⟩
    · rintro (⟨c, rfl, rfl⟩ | ⟨b, rfl, hcs⟩)
      · exact absurd rfl (hL (c.text.toList ++ [';'] ++ rest))
      · exact ⟨b, (BaseType.inverts_read _ b rest).2 hcs, rfl⟩

theorem ne_bracket_of_element (c : ClassName) (b : BaseType) (rest : List Char) :
    (c.chars ++ rest).head? ≠ some '[' ∧ (b.chars ++ rest).head? ≠ some '[' := by
  cases b <;> simp [ClassName.chars, BaseType.chars, BaseType.letter]

/-- Brackets before something else are counted off. -/
theorem brackets_of_append {n : Nat} (h : cs.head? ≠ some '[') :
    ((List.replicate n '[' ++ cs).takeWhile (· = '[')).length = n ∧
      (List.replicate n '[' ++ cs).dropWhile (· = '[') = cs := by
  have hall : ∀ x ∈ List.replicate n '[', decide (x = '[') = true := by
    intro x hx
    exact decide_eq_true (List.eq_of_mem_replicate hx)
  rw [List.takeWhile_append_of_pos hall, List.dropWhile_append_of_pos hall]
  cases cs with
  | nil => simp
  | cons c cs =>
    have hc : c ≠ '[' := by
      rintro rfl
      exact h rfl
    simp [hc]

theorem brackets_append (cs : List Char) :
    cs = List.replicate (cs.takeWhile (· = '[')).length '[' ++ cs.dropWhile (· = '[') := by
  have hall : cs.takeWhile (· = '[') = List.replicate (cs.takeWhile (· = '[')).length '[' := by
    apply List.eq_replicate_of_mem
    intro x hx
    have hkept := List.mem_takeWhile_imp hx
    exact of_decide_eq_true hkept
  rw [← hall, List.takeWhile_append_dropWhile]

theorem inverts_read : Inverts read chars := by
  intro cs r rest
  unfold read
  split
  · constructor
    · intro h
      cases h
    · intro h
      cases r <;> simp [chars, ClassName.chars, List.replicate_succ] at h
  · rename_i cs
    rw [map_pair_eq_ok]
    constructor
    · rintro ⟨c, hc, rfl⟩
      exact (ClassName.inverts_read _ c rest).1 hc
    · intro h
      cases r with
      | object c => exact ⟨c, (ClassName.inverts_read _ c rest).2 h, rfl⟩
      | objectArray n c => cases h
      | primitiveArray n b => cases h
  · rename_i cs
    rw [readArray_eq_ok]
    constructor
    · rintro (⟨c, rfl, hcs⟩ | ⟨b, rfl, hcs⟩)
      · rw [chars, List.replicate_succ, List.cons_append, List.cons_append, List.append_assoc,
          ← hcs, ← brackets_append]
      · rw [chars, List.replicate_succ, List.cons_append, List.cons_append, List.append_assoc,
          ← hcs, ← brackets_append]
    · intro h
      cases r with
      | object c => cases h
      | objectArray n c =>
        rw [chars, List.replicate_succ, List.cons_append, List.cons_append,
          List.append_assoc, List.cons.injEq] at h
        obtain ⟨hcount, hdrop⟩ := brackets_of_append (n := n)
          (ne_bracket_of_element c .int rest).1
        rw [h.2, hcount, hdrop]
        exact .inl ⟨c, rfl, rfl⟩
      | primitiveArray n b =>
        rw [chars, List.replicate_succ, List.cons_append, List.cons_append,
          List.append_assoc, List.cons.injEq] at h
        obtain ⟨hcount, hdrop⟩ := brackets_of_append (n := n)
          (ne_bracket_of_element .object b rest).2
        rw [h.2, hcount, hdrop]
        exact .inr ⟨b, rfl, rfl⟩
  · rename_i c cs hL hbracket
    constructor
    · intro h
      cases h
    · intro h
      cases r with
      | object c' =>
        cases h
        exact absurd rfl hL
      | objectArray n c' =>
        cases h
        exact absurd rfl hbracket
      | primitiveArray n b =>
        cases h
        exact absurd rfl hbracket

end RefType

theorem ValueType.inverts_read : Inverts read chars := by
  intro cs t rest
  cases cs with
  | nil =>
    cases t with
    | base b => simp [read, chars, BaseType.chars]
    | ref r =>
      have hr := RefType.inverts_read [] r rest
      simp only [RefType.read] at hr
      simpa [read, chars] using hr
  | cons c cs =>
    have hbase := BaseType.inverts_read (c :: cs)
    have href := RefType.inverts_read (c :: cs)
    simp only [BaseType.read] at hbase
    simp only [read]
    split
    · rename_i b hb
      simp only [hb] at hbase
      cases t with
      | base b' => simpa [chars] using hbase b' rest
      | ref r =>
        -- no reference type starts with the letter of a primitive
        have hnone : RefType.read (c :: cs) ≠ .ok (r, rest) := by
          rw [BaseType.ofLetter?_eq_some hb]
          cases b <;> simp [RefType.read, BaseType.letter]
        simpa [chars, href] using hnone
    · rename_i hnone
      rw [map_pair_eq_ok]
      simp only [hnone] at hbase
      cases t with
      | base b => simpa [chars] using hbase b rest
      | ref r => simp [chars, href]

namespace Signature

variable {parameters : List ValueType}

theorem ne_close_of_value (t : ValueType) (rest : List Char) :
    (t.chars ++ rest).head? ≠ some ')' := by
  cases t with
  | base b => cases b <;> simp [ValueType.chars, BaseType.chars, BaseType.letter]
  | ref r => cases r <;> simp [ValueType.chars, RefType.chars, ClassName.chars, List.replicate_succ]

theorem readParameters_eq_ok : readParameters cs = .ok (parameters, rest) ↔
    cs = parameters.flatMap ValueType.chars ++ ')' :: rest := by
  fun_induction readParameters cs generalizing parameters with
  | case1 r =>
    cases parameters with
    | nil => simp [eq_comm]
    | cons t ts =>
      constructor
      · intro h
        cases h
      · intro h
        rw [List.flatMap_cons, List.append_assoc] at h
        have hhead := ne_close_of_value t (ts.flatMap ValueType.chars ++ ')' :: rest)
        rw [← h] at hhead
        exact absurd rfl hhead
  | case2 cs hclose e he =>
    constructor
    · intro h
      cases h
    · intro h
      cases parameters with
      | nil => exact absurd h (hclose rest)
      | cons t ts =>
        rw [List.flatMap_cons, List.append_assoc] at h
        rw [(ValueType.inverts_read _ _ _).2 h] at he
        cases he
  | case3 cs hclose t r hread ih =>
    rw [map_pair_eq_ok]
    constructor
    · rintro ⟨ts, hts, rfl⟩
      rw [(ValueType.inverts_read _ _ _).1 hread, ih.1 hts, List.flatMap_cons, List.append_assoc]
    · intro h
      cases parameters with
      | nil => exact absurd h (hclose rest)
      | cons t' ts =>
        rw [List.flatMap_cons, List.append_assoc] at h
        rw [(ValueType.inverts_read _ _ _).2 h] at hread
        cases hread
        exact ⟨ts, ih.2 rfl, rfl⟩

theorem readReturn_eq_ok {returns : Option ValueType} : readReturn cs = .ok (returns, rest) ↔
    cs = (returns.map ValueType.chars).getD ['V'] ++ rest := by
  unfold readReturn
  split
  · rename_i cs
    cases returns with
    | none => simp
    | some t =>
      have hread := ValueType.inverts_read ('V' :: cs) t rest
      simpa [ValueType.read, BaseType.ofLetter?, RefType.read, Except.map] using hread
  · rename_i hV
    rw [map_pair_eq_ok]
    cases returns with
    | none =>
      constructor
      · rintro ⟨t, ht, hnone⟩
        cases hnone
      · intro h
        exact absurd h (hV rest)
    | some t =>
      simp [ValueType.inverts_read cs]

theorem inverts_read : Inverts read chars := by
  intro cs s rest
  unfold read
  split
  · rename_i cs
    constructor
    · intro h
      cases hp : readParameters cs with
      | error e => simp [hp, bind, Except.bind] at h
      | ok p =>
        obtain ⟨parameters, r⟩ := p
        cases hr : readReturn r with
        | error e => simp [hp, hr, bind, Except.bind] at h
        | ok q =>
          obtain ⟨returns, r'⟩ := q
          simp only [hp, hr, bind, Except.bind, pure, Except.pure] at h
          cases h
          rw [readParameters_eq_ok.1 hp, readReturn_eq_ok.1 hr]
          simp [chars, returnChars]
    · intro h
      have hcs : cs = s.parameters.flatMap ValueType.chars ++ ')' :: (s.returnChars ++ rest) := by
        simpa [chars] using h
      have hp := readParameters_eq_ok.2 hcs
      have hr : readReturn (s.returnChars ++ rest) = .ok (s.returns, rest) :=
        readReturn_eq_ok.2 rfl
      simp [hp, hr, bind, Except.bind, pure, Except.pure]
  · rename_i hopen
    constructor
    · intro h
      cases h
    · intro h
      exact absurd h (hopen _)

end Signature

/-! The grammar of descriptors. -/

inductive BaseGrammar : List Char → Prop
  | letter {c : Char} (h : c ∈ ['B', 'C', 'D', 'F', 'I', 'J', 'S', 'Z']) : BaseGrammar [c]

inductive ObjectGrammar : List Char → Prop
  | named {name : List Char} (h : ClassName.Valid name) : ObjectGrammar ('L' :: name ++ [';'])

/-- Objects, and arrays of anything that is a value. -/
inductive RefGrammar : List Char → Prop
  | object {cs : List Char} (h : ObjectGrammar cs) : RefGrammar cs
  | ofPrimitives {cs : List Char} (h : BaseGrammar cs) : RefGrammar ('[' :: cs)
  | ofReferences {cs : List Char} (h : RefGrammar cs) : RefGrammar ('[' :: cs)

inductive ValueGrammar : List Char → Prop
  | base {cs : List Char} (h : BaseGrammar cs) : ValueGrammar cs
  | ref {cs : List Char} (h : RefGrammar cs) : ValueGrammar cs

inductive SignatureGrammar : List Char → Prop
  | void {parts : List (List Char)} (h : ∀ p ∈ parts, ValueGrammar p) :
    SignatureGrammar ('(' :: parts.flatten ++ [')', 'V'])
  | returning {parts : List (List Char)} {result : List Char} (h : ∀ p ∈ parts, ValueGrammar p)
    (hresult : ValueGrammar result) : SignatureGrammar ('(' :: parts.flatten ++ ')' :: result)

theorem BaseType.exists_chars_iff : (∃ b : BaseType, cs = b.chars) ↔ BaseGrammar cs := by
  constructor
  · rintro ⟨b, rfl⟩
    refine .letter ?_
    cases b <;> decide
  · rintro ⟨h⟩
    simp only [List.mem_cons, List.not_mem_nil, or_false] at h
    rcases h with rfl | rfl | rfl | rfl | rfl | rfl | rfl | rfl
    exacts [⟨.byte, rfl⟩, ⟨.char, rfl⟩, ⟨.double, rfl⟩, ⟨.float, rfl⟩, ⟨.int, rfl⟩, ⟨.long, rfl⟩,
      ⟨.short, rfl⟩, ⟨.boolean, rfl⟩]

theorem ClassName.exists_chars_iff : (∃ c : ClassName, cs = c.chars) ↔ ObjectGrammar cs := by
  constructor
  · rintro ⟨c, rfl⟩
    exact .named c.valid
  · rintro ⟨h⟩
    rename_i name
    exact ⟨⟨String.ofList name, by simpa using h⟩, by simp [chars]⟩

namespace RefType

/-- The type of arrays with the type's values as elements. -/
def nested : RefType → RefType
  | .object c => .objectArray 0 c
  | .objectArray n c => .objectArray (n + 1) c
  | .primitiveArray n b => .primitiveArray (n + 1) b

theorem chars_nested (r : RefType) : r.nested.chars = '[' :: r.chars := by
  cases r <;> rfl

theorem refGrammar_brackets (h : RefGrammar cs) (n : Nat) :
    RefGrammar (List.replicate n '[' ++ cs) := by
  induction n with
  | zero => exact h
  | succ n ih => exact .ofReferences ih

theorem exists_chars_iff : (∃ r : RefType, cs = r.chars) ↔ RefGrammar cs := by
  constructor
  · rintro ⟨r, rfl⟩
    cases r with
    | object c => exact .object (ClassName.exists_chars_iff.1 ⟨c, rfl⟩)
    | objectArray n c =>
      exact refGrammar_brackets (.object (ClassName.exists_chars_iff.1 ⟨c, rfl⟩)) (n + 1)
    | primitiveArray n b =>
      have h := refGrammar_brackets (.ofPrimitives (BaseType.exists_chars_iff.1 ⟨b, rfl⟩)) n
      rwa [List.append_cons, ← List.replicate_succ'] at h
  · intro h
    induction h with
    | object h =>
      obtain ⟨c, rfl⟩ := ClassName.exists_chars_iff.2 h
      exact ⟨.object c, rfl⟩
    | ofPrimitives h =>
      obtain ⟨b, rfl⟩ := BaseType.exists_chars_iff.2 h
      exact ⟨.primitiveArray 0 b, rfl⟩
    | ofReferences h ih =>
      obtain ⟨r, rfl⟩ := ih
      exact ⟨r.nested, r.chars_nested.symm⟩

end RefType

theorem ValueType.exists_chars_iff : (∃ t : ValueType, cs = t.chars) ↔ ValueGrammar cs := by
  constructor
  · rintro ⟨t, rfl⟩
    cases t with
    | base b => exact .base (BaseType.exists_chars_iff.1 ⟨b, rfl⟩)
    | ref r => exact .ref (RefType.exists_chars_iff.1 ⟨r, rfl⟩)
  · rintro (h | h)
    · obtain ⟨b, rfl⟩ := BaseType.exists_chars_iff.2 h
      exact ⟨.base b, rfl⟩
    · obtain ⟨r, rfl⟩ := RefType.exists_chars_iff.2 h
      exact ⟨.ref r, rfl⟩

namespace Signature

theorem exists_parameters {parts : List (List Char)} (h : ∀ p ∈ parts, ValueGrammar p) :
    ∃ parameters : List ValueType, parts = parameters.map ValueType.chars := by
  induction parts with
  | nil => exact ⟨[], rfl⟩
  | cons p parts ih =>
    obtain ⟨t, rfl⟩ := ValueType.exists_chars_iff.2 (h p List.mem_cons_self)
    obtain ⟨ts, rfl⟩ := ih fun q hq => h q (List.mem_cons_of_mem _ hq)
    exact ⟨t :: ts, rfl⟩

theorem exists_chars_iff : (∃ s : Signature, cs = s.chars) ↔ SignatureGrammar cs := by
  constructor
  · rintro ⟨⟨parameters, returns⟩, rfl⟩
    have hparts : ∀ p ∈ parameters.map ValueType.chars, ValueGrammar p := by
      intro p hp
      obtain ⟨t, _, rfl⟩ := List.mem_map.1 hp
      exact ValueType.exists_chars_iff.1 ⟨t, rfl⟩
    cases returns with
    | none => exact .void hparts
    | some t => exact .returning hparts (ValueType.exists_chars_iff.1 ⟨t, rfl⟩)
  · rintro (h | ⟨h, hresult⟩)
    · obtain ⟨parameters, rfl⟩ := exists_parameters h
      exact ⟨⟨parameters, none⟩, rfl⟩
    · obtain ⟨parameters, rfl⟩ := exists_parameters h
      obtain ⟨t, rfl⟩ := ValueType.exists_chars_iff.2 hresult
      exact ⟨⟨parameters, some t⟩, rfl⟩

end Signature

/-- A text stands for a value just if the value is written so; the texts that stand for one are
those of the grammar, and none stands for two. -/
structure ReadAsWritten (parse : String → Except DescriptorError α) (render : α → String)
    (grammar : List Char → Prop) : Prop where
  parse_eq_ok_iff : ∀ text a, parse text = .ok a ↔ text = render a
  accepts_iff : ∀ text : String, (∃ a, parse text = .ok a) ↔ grammar text.toList
  injective : Function.Injective render

theorem DescriptorReader.Inverts.readAsWritten {read : DescriptorReader α} {chars : α → List Char}
    {grammar : List Char → Prop} (h : Inverts read chars)
    (hgrammar : ∀ {cs}, (∃ a, cs = chars a) ↔ grammar cs) :
    ReadAsWritten (DescriptorReader.whole read) (fun a => String.ofList (chars a)) grammar where
  parse_eq_ok_iff _ a := h.whole a
  accepts_iff text := by
    rw [← hgrammar]
    apply exists_congr
    intro a
    rw [h.whole, ← String.toList_inj, String.toList_ofList]
  injective := h.injective

/-- Reading and writing descriptors are inverse to each other, for every type of descriptor. -/
theorem descriptors_read_as_written :
    ReadAsWritten BaseType.parse BaseType.render BaseGrammar ∧
      ReadAsWritten ClassName.parse ClassName.render ObjectGrammar ∧
      ReadAsWritten RefType.parse RefType.render RefGrammar ∧
      ReadAsWritten ValueType.parse ValueType.render ValueGrammar ∧
      ReadAsWritten Signature.parse Signature.render SignatureGrammar :=
  ⟨BaseType.inverts_read.readAsWritten BaseType.exists_chars_iff,
    ClassName.inverts_read.readAsWritten ClassName.exists_chars_iff,
    RefType.inverts_read.readAsWritten RefType.exists_chars_iff,
    ValueType.inverts_read.readAsWritten ValueType.exists_chars_iff,
    Signature.inverts_read.readAsWritten Signature.exists_chars_iff⟩

end CodeWeaving
