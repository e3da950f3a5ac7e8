import CodeWeaving.Proofs.Descriptor.WrittenForm
import CodeWeaving.Proofs.Weaving.Locating

/-! Identities of members: two members share one only if the name of the one takes in the beginning
of the other's descriptor. -/
namespace CodeWeaving

/-- Two equal texts with a mark in each have it in one place, or one has its mark in what the other
has before its own. -/
theorem marked_cases {α : Type} {mark : α} {a b s t : List α}
    (h : a ++ mark :: s = b ++ mark :: t) : a = b ∧ s = t ∨
      (∃ shared, b = a ++ mark :: shared ∧ s = shared ++ mark :: t) ∨
      ∃ shared, a = b ++ mark :: shared ∧ t = shared ++ mark :: s := by
  rcases List.append_eq_append_iff.1 h with ⟨l, hb, hs⟩ | ⟨l, ha, ht⟩
  · cases l with
    | nil =>
      cases hs
      exact .inl ⟨by simpa using hb.symm, rfl⟩
    | cons x l =>
      cases hs
      exact .inr (.inl ⟨l, hb, rfl⟩)
  · cases l with
    | nil =>
      cases ht
      exact .inl ⟨by simpa using ha, rfl⟩
    | cons x l =>
      cases ht
      exact .inr (.inr ⟨l, ha, rfl⟩)

theorem ClassName.eq_of_chars {c d : ClassName} (h : c.text.toList = d.text.toList) : c = d := by
  obtain ⟨c, _⟩ := c
  obtain ⟨d, _⟩ := d
  obtain rfl := String.toList_inj.1 h
  rfl

theorem MemberName.eq_of_chars {n k : MemberName} (h : n.text.toList = k.text.toList) : n = k := by
  obtain ⟨n, _⟩ := n
  obtain ⟨k, _⟩ := k
  obtain rfl := String.toList_inj.1 h
  rfl

/-- A member as its identity is written, its descriptor from a mark on. The descriptor has the mark
again only in the names of classes. -/
structure MemberText (mark : Char) where
  owner : ClassName
  name : MemberName
  descriptor : List Char
  classes : List ClassName
  marked : mark ∈ descriptor → ∃ c ∈ classes, mark ∈ c.text.toList

namespace MemberText

variable {mark : Char} {m k : MemberText mark}

def chars (m : MemberText mark) : List Char :=
  m.owner.text.toList ++ '.' :: (m.name.text.toList ++ mark :: m.descriptor)

/-- The second name goes on where the first has its descriptor, and ends before a mark that stands
there in the name of a class. -/
structure Overlaps (m k : MemberText mark) : Prop where
  owner : m.owner = k.owner
  name : ∃ shared, k.name.text.toList = m.name.text.toList ++ mark :: shared ∧
    m.descriptor = shared ++ mark :: k.descriptor
  cls : ∃ c ∈ m.classes, mark ∈ c.text.toList

theorem Overlaps.chars_eq (h : m.Overlaps k) : m.chars = k.chars := by
  obtain ⟨shared, hname, hdescriptor⟩ := h.name
  simp [chars, h.owner, hname, hdescriptor]

theorem overlaps_of_shared {shared : List Char} (howner : m.owner = k.owner)
    (hname : k.name.text.toList = m.name.text.toList ++ mark :: shared)
    (hdescriptor : m.descriptor = shared ++ mark :: k.descriptor) : m.Overlaps k where
  owner := howner
  name := ⟨shared, hname, hdescriptor⟩
  cls := m.marked (by simp [hdescriptor])

/-- No owner holds a dot, so the first one ends it. -/
theorem owner_eq_of_chars (h : m.chars = k.chars) : m.owner = k.owner ∧
    m.name.text.toList ++ mark :: m.descriptor = k.name.text.toList ++ mark :: k.descriptor := by
  have hdot (c : ClassName) : '.' ∉ c.text.toList :=
    ClassName.separator_notMem c.valid (by decide) (by decide)
  rcases marked_cases h with ⟨howner, hrest⟩ | ⟨shared, howner, -⟩ | ⟨shared, howner, -⟩
  · exact ⟨ClassName.eq_of_chars howner, hrest⟩
  · exact absurd (by simp [howner]) (hdot k.owner)
  · exact absurd (by simp [howner]) (hdot m.owner)

theorem chars_eq_iff : m.chars = k.chars ↔
    (m.owner = k.owner ∧ m.name = k.name ∧ m.descriptor = k.descriptor) ∨
      m.Overlaps k ∨ k.Overlaps m := by
  constructor
  · intro h
    obtain ⟨howner, h⟩ := owner_eq_of_chars h
    rcases marked_cases h with ⟨hname, hrest⟩ | ⟨shared, hname, hrest⟩ | ⟨shared, hname, hrest⟩
    · exact .inl ⟨howner, MemberName.eq_of_chars hname, hrest⟩
    · exact .inr (.inl (overlaps_of_shared howner hname hrest))
    · exact .inr (.inr (overlaps_of_shared howner.symm hname hrest))
  · rintro (⟨howner, hname, hdescriptor⟩ | h | h)
    · simp [chars, howner, hname, hdescriptor]
    · exact h.chars_eq
    · exact h.chars_eq.symm

/-- Neither the member's name nor a class in its descriptor has the mark. -/
def Plain (m : MemberText mark) : Prop :=
  mark ∉ m.name.text.toList ∧ ∀ c ∈ m.classes, mark ∉ c.text.toList

theorem Plain.not_overlaps (h : m.Plain) : ¬ m.Overlaps k ∧ ¬ k.Overlaps m := by
  refine ⟨fun hover => ?_, fun hover => ?_⟩
  · obtain ⟨c, hc, hmark⟩ := hover.cls
    exact h.2 c hc hmark
  · obtain ⟨shared, hname, -⟩ := hover.name
    exact h.1 (by simp [hname])

end MemberText

/-- The class that a type names. -/
def ValueType.class? : ValueType → Option ClassName
  | .ref (.object c) | .ref (.objectArray _ c) => some c
  | .base _ | .ref (.primitiveArray ..) => none

/-- Besides names, descriptors of values are written with these. -/
def ValueType.marks : List Char := ['B', 'C', 'D', 'F', 'I', 'J', 'S', 'Z', 'L', ';', '[']

theorem BaseType.letter_mem_marks (b : BaseType) : b.letter ∈ ValueType.marks := by
  cases b <;> decide

/-- What else is in a descriptor is in the name of a class. -/
theorem ValueType.exists_class_of_mem_chars {t : ValueType} {x : Char} (h : x ∈ t.chars)
    (hx : x ∉ marks) : ∃ c, t.class? = some c ∧ x ∈ c.text.toList := by
  have hname {c : ClassName} (h : x ∈ c.chars) : x ∈ c.text.toList := by
    simp only [ClassName.chars, List.cons_append, List.mem_cons, List.mem_append,
      List.not_mem_nil, or_false] at h
    rcases h with rfl | h | rfl
    · exact absurd (by decide) hx
    · exact h
    · exact absurd (by decide) hx
  have hbrackets {n : Nat} {cs : List Char} (h : x ∈ List.replicate n '[' ++ cs) : x ∈ cs := by
    rcases List.mem_append.1 h with h | h
    · exact absurd (List.eq_of_mem_replicate h ▸ by decide) hx
    · exact h
  have hletter {b : BaseType} (h : x ∈ b.chars) : x ∈ marks :=
    List.mem_singleton.1 h ▸ b.letter_mem_marks
  cases t with
  | base b => exact absurd (hletter h) hx
  | ref r =>
    cases r with
    | object c => exact ⟨c, rfl, hname h⟩
    | objectArray n c => exact ⟨c, rfl, hname (hbrackets h)⟩
    | primitiveArray n b => exact absurd (hletter (hbrackets h)) hx

namespace Signature

variable {s : Signature}

/-- The classes that a signature names. -/
def classes (s : Signature) : List ClassName :=
  (s.parameters ++ s.returns.toList).filterMap ValueType.class?

/-- What follows the first parenthesis. -/
def tail (s : Signature) : List Char := s.parameters.flatMap ValueType.chars ++ ')' :: s.returnChars

theorem chars_eq (s : Signature) : s.chars = '(' :: s.tail := rfl

/-- Another opening parenthesis can only be in the name of a class. -/
theorem exists_class_of_mem_tail (h : '(' ∈ s.tail) : ∃ c ∈ s.classes, '(' ∈ c.text.toList := by
  have hof (t : ValueType) (ht : t ∈ s.parameters ++ s.returns.toList) (h : '(' ∈ t.chars) :
      ∃ c ∈ s.classes, '(' ∈ c.text.toList := by
    obtain ⟨c, hc, hmem⟩ := t.exists_class_of_mem_chars h (by decide)
    exact ⟨c, List.mem_filterMap.2 ⟨t, ht, hc⟩, hmem⟩
  rcases List.mem_append.1 h with h | h
  · obtain ⟨t, ht, hmem⟩ := List.mem_flatMap.1 h
    exact hof t (List.mem_append_left _ ht) hmem
  rcases List.mem_cons.1 h with h | h
  · cases h
  rw [returnChars] at h
  cases hreturns : s.returns with
  | none =>
    rw [hreturns] at h
    exact absurd h (by decide)
  | some t =>
    rw [hreturns] at h
    exact hof t (by simp [hreturns]) h

theorem eq_of_tail {s' : Signature} (h : s.tail = s'.tail) : s = s' := by
  refine inverts_read.injective (congrArg String.ofList ?_)
  rw [chars_eq, chars_eq, h]

end Signature

/-- The method as it is written, its signature from the parenthesis on. -/
def MethodRef.written (m : MethodRef) : MemberText '(' where
  owner := m.owner
  name := m.name
  descriptor := m.signature.tail
  classes := m.signature.classes
  marked := Signature.exists_class_of_mem_tail

/-- The field as it is written, with a colon before its type. -/
def FieldRef.written (f : FieldRef) : MemberText ':' where
  owner := f.owner
  name := f.name
  descriptor := f.type.chars
  classes := f.type.class?.toList
  marked h := by
    obtain ⟨c, hc, hmem⟩ := f.type.exists_class_of_mem_chars h (by decide)
    exact ⟨c, by simp [hc], hmem⟩

theorem MethodRef.identity_eq_iff {a b : MethodRef} : a.identity = b.identity ↔
    a = b ∨ a.written.Overlaps b.written ∨ b.written.Overlaps a.written := by
  have hchars (m : MethodRef) : m.identity.toList = m.written.chars := by
    simp [identity, Signature.render, Signature.chars_eq, String.toList_append, MemberText.chars,
      written]
  rw [← String.toList_inj, hchars, hchars, MemberText.chars_eq_iff]
  refine or_congr_left ⟨fun ⟨howner, hname, htail⟩ => ?_, fun h => h ▸ ⟨rfl, rfl, rfl⟩⟩
  obtain ⟨owner, name, signature⟩ := a
  obtain rfl : owner = b.owner := howner
  obtain rfl : name = b.name := hname
  obtain rfl : signature = b.signature := Signature.eq_of_tail htail
  rfl

theorem FieldRef.identity_eq_iff {a b : FieldRef} : a.identity = b.identity ↔
    a = b ∨ a.written.Overlaps b.written ∨ b.written.Overlaps a.written := by
  have hchars (f : FieldRef) : f.identity.toList = f.written.chars := by
    simp [identity, ValueType.render, String.toList_append, MemberText.chars, written]
  rw [← String.toList_inj, hchars, hchars, MemberText.chars_eq_iff]
  refine or_congr_left ⟨fun ⟨howner, hname, hchars⟩ => ?_, fun h => h ▸ ⟨rfl, rfl, rfl⟩⟩
  obtain ⟨owner, name, type⟩ := a
  obtain rfl : owner = b.owner := howner
  obtain rfl : name = b.name := hname
  obtain rfl : type = b.type := ValueType.inverts_read.injective (congrArg String.ofList hchars)
  rfl

namespace Selector

variable {code : Code} {found : List Nat} {p : Nat} {ordinal : Int32}

theorem exists_call_of_matches? {a : MethodRef}
    (h : (calls (.exact a.identity) ordinal).matches? code = .ok found) (hp : p ∈ found) :
    ∃ kind b, code[p]? = some (.invoke kind b) ∧ b.identity = a.identity := by
  cases selects_of_matches? h hp with
  | call hp hidentity => exact ⟨_, _, hp, of_decide_eq_true hidentity⟩

theorem exists_access_of_matches? {a : FieldRef}
    (h : (fieldAccesses (.exact a.identity) ordinal).matches? code = .ok found) (hp : p ∈ found) :
    ∃ access b, code[p]? = some (.field access b) ∧ b.identity = a.identity := by
  cases selects_of_matches? h hp with
  | fieldAccess hp hidentity => exact ⟨_, _, hp, of_decide_eq_true hidentity⟩

end Selector

/-- Two methods, or two fields, have one identity if they are the same or overlap, and only then. So
the exact identity of a member selects calls and accesses of it and of what overlaps with it, and of
that very member alone if it is plain. -/
theorem identities_identify :
    (∀ a b : MethodRef, a.identity = b.identity ↔
      a = b ∨ a.written.Overlaps b.written ∨ b.written.Overlaps a.written) ∧
    (∀ a b : FieldRef, a.identity = b.identity ↔
      a = b ∨ a.written.Overlaps b.written ∨ b.written.Overlaps a.written) ∧
    (∀ (a : MethodRef) ordinal code found p,
      (Selector.calls (.exact a.identity) ordinal).matches? code = .ok found → p ∈ found →
      ∃ kind b, code[p]? = some (.invoke kind b) ∧
        (b = a ∨ b.written.Overlaps a.written ∨ a.written.Overlaps b.written) ∧
        (a.written.Plain → b = a)) ∧
    ∀ (a : FieldRef) ordinal code found p,
      (Selector.fieldAccesses (.exact a.identity) ordinal).matches? code = .ok found → p ∈ found →
      ∃ access b, code[p]? = some (.field access b) ∧
        (b = a ∨ b.written.Overlaps a.written ∨ a.written.Overlaps b.written) ∧
        (a.written.Plain → b = a) := by
  refine ⟨fun _ _ => MethodRef.identity_eq_iff, fun _ _ => FieldRef.identity_eq_iff, ?_, ?_⟩
  · intro a ordinal code found p hfound hp
    obtain ⟨kind, b, hget, hidentity⟩ := Selector.exists_call_of_matches? hfound hp
    have hcases := MethodRef.identity_eq_iff.1 hidentity
    exact ⟨kind, b, hget, hcases, fun hplain =>
      hcases.resolve_right (not_or.2 hplain.not_overlaps.symm)⟩
  · intro a ordinal code found p hfound hp
    obtain ⟨access, b, hget, hidentity⟩ := Selector.exists_access_of_matches? hfound hp
    have hcases := FieldRef.identity_eq_iff.1 hidentity
    exact ⟨access, b, hget, hcases, fun hplain =>
      hcases.resolve_right (not_or.2 hplain.not_overlaps.symm)⟩

/-- A method whose parameter is of a class with a parenthesis in its name. -/
def MethodRef.bracketed : MethodRef :=
  ⟨⟨"o", by decide⟩, ⟨"f", by decide⟩, ⟨[.ref (.object ⟨"a(Lb", by decide⟩)], none⟩⟩

/-- A method whose name goes on up to that parenthesis. -/
def MethodRef.overlapping : MethodRef :=
  ⟨⟨"o", by decide⟩, ⟨"f(La", by decide⟩, ⟨[.ref (.object ⟨"b", by decide⟩)], none⟩⟩

/-- A field of a class with a colon in its name. -/
def FieldRef.marked : FieldRef :=
  ⟨⟨"o", by decide⟩, ⟨"f", by decide⟩, .ref (.object ⟨"a:Lb", by decide⟩)⟩

/-- A field whose name goes on up to that colon. -/
def FieldRef.overlapping : FieldRef :=
  ⟨⟨"o", by decide⟩, ⟨"f:La", by decide⟩, .ref (.object ⟨"b", by decide⟩)⟩

def FieldRef.plain : FieldRef := ⟨⟨"o", by decide⟩, ⟨"f", by decide⟩, .base .int⟩

theorem overlapping_selected :
    let calls : Code := [.invoke .static .bracketed, .invoke .static .overlapping]
    let accesses : Code := [.field .getStatic .marked, .field .getStatic .plain]
    (Selector.calls (.exact MethodRef.bracketed.identity) (-1)).matches? calls = .ok [0, 1] ∧
    (Selector.fieldAccesses (.exact FieldRef.plain.identity) (-1)).matches? accesses = .ok [1] ∧
    (∃ kind b, calls[1]? = some (.invoke kind b) ∧
      (b = .bracketed ∨ b.written.Overlaps MethodRef.bracketed.written ∨
        MethodRef.bracketed.written.Overlaps b.written)) ∧
    ∃ access, accesses[1]? = some (.field access .plain) := by
  intro calls accesses
  have hcalls : (Selector.calls (.exact MethodRef.bracketed.identity) (-1)).matches? calls =
      .ok [0, 1] := by decide +kernel
  have haccesses : (Selector.fieldAccesses (.exact FieldRef.plain.identity) (-1)).matches?
      accesses = .ok [1] := by decide +kernel
  obtain ⟨kind, b, hget, hb, -⟩ :=
    identities_identify.2.2.1 .bracketed (-1) calls _ 1 hcalls (by decide)
  obtain ⟨access, f, hf, -, hplain⟩ :=
    identities_identify.2.2.2 .plain (-1) accesses _ 1 haccesses (by decide)
  obtain rfl := hplain ⟨by decide, by decide⟩
  exact ⟨hcalls, haccesses, ⟨kind, b, hget, hb⟩, access, hf⟩

/-- A name may begin as a signature does, and end within the name of a class there. -/
theorem not_always_identified :
    (¬ ∀ a b : MethodRef, a.identity = b.identity →
      a.owner = b.owner ∧ a.name = b.name ∧ a.signature = b.signature) ∧
    ¬ ∀ a b : FieldRef, a.identity = b.identity →
      a.owner = b.owner ∧ a.name = b.name ∧ a.type = b.type := by
  refine ⟨fun h => ?_, fun h => ?_⟩
  · exact absurd (h .bracketed .overlapping (by decide +kernel)).2.1 (by decide)
  · exact absurd (h .marked .overlapping (by decide +kernel)).2.1 (by decide)

end CodeWeaving
