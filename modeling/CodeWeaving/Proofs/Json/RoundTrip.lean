import CodeWeaving.Proofs.Json.Parsing
import CodeWeaving.Proofs.Json.Reread

/-! What is printed is read back, on one line and indented alike. -/
namespace CodeWeaving.Json

mutual

/-- Integers have sixty-four bits, and numbers with a fraction are finite and are read back where
they stand alone. -/
def Printable : Json → Prop
  | .integer n => -0x8000000000000000 ≤ n ∧ n < 0x10000000000000000
  | .single x => x.isFinite = true ∧
    ∃ y, parse? (compact (.single x)) = some (.double y) ∧ y.toFloat32 = x
  | .double x => x.isFinite = true ∧ parse? (compact (.double x)) = some (.double x)
  | .array items => PrintableItems items
  | .object members => PrintableMembers members
  | .unusable => False
  | .null | .bool _ | .string _ => True

def PrintableItems : List Json → Prop
  | [] => True
  | item :: items => item.Printable ∧ PrintableItems items

def PrintableMembers : List (String × Json) → Prop
  | [] => True
  | (_, value) :: members => value.Printable ∧ PrintableMembers members

end

variable {s gap : String} {ts ts' a : List Token} {v w : Json} {items : List Json}
  {members : List (String × Json)} {name : String} {f g : String → String}

def Blank (s : String) : Prop := ∀ c ∈ s.toList, isBlank c = true

theorem Closes.append_blank (h : Closes s ts) (hgap : Blank gap) : Closes (s ++ gap) ts := by
  cases hchars : gap.toList with
  | nil =>
    rw [String.toList_eq_nil_iff.1 hchars, String.append_empty]
    exact h
  | cons c cs => exact (h.append_blanks hchars (hchars ▸ hgap)).closes

theorem Reads.append_blank (h : Reads s ts) (hgap : Blank gap) : Reads (s ++ gap) ts := by
  have hblanks := reads_blanks hgap
  rw [String.ofList_toList] at hblanks
  have hboth := h.append hblanks
  rwa [List.append_nil] at hboth

/-- The value is put behind any text that is complete. -/
def Puts (f : String → String) (v : Json) : Prop :=
  ∃ ts, Yields ts v ∧ ∀ before a, Reads before a → Closes (f before) (a ++ ts)

/-- More items are put behind those there are. -/
def PutsItems (f : String → String) (items : List Json) : Prop :=
  ∃ ts, YieldsItems ts items ∧ ∀ before a, Closes before a → Closes (f before) (a ++ ts)

/-- More members are put behind those there are. -/
def PutsMembers (f : String → String) (members : List (String × Json)) : Prop :=
  ∃ ts, YieldsMembers ts members ∧ ∀ before a, Closes before a → Closes (f before) (a ++ ts)

theorem Puts.append (h : parse? s = some v) : Puts (fun before => before ++ s) v := by
  obtain ⟨ts, hcloses, hyields⟩ := parse_eq_some_iff.1 h
  exact ⟨ts, hyields, fun before a hbefore => hbefore.append_closes hcloses⟩

theorem Puts.parse (h : Puts f v) : parse? (f "") = some v := by
  obtain ⟨ts, hyields, hputs⟩ := h
  exact parse_eq_some_iff.2 ⟨ts, hputs "" [] .nil, hyields⟩

theorem PutsItems.nil : PutsItems id [] :=
  ⟨[], .nil, fun before a h => by rwa [List.append_nil]⟩

theorem PutsItems.cons (hgap : Blank gap) (hg : Puts g v) (hf : PutsItems f items) :
    PutsItems (fun before => f (g (before ++ "," ++ gap))) (v :: items) := by
  obtain ⟨ts, hv, hg⟩ := hg
  obtain ⟨ts', hitems, hf⟩ := hf
  refine ⟨.comma :: (ts ++ ts'), .cons hv hitems, fun before a hbefore => ?_⟩
  have hcomma : Reads (before ++ ",") (a ++ [.comma]) := hbefore.append_mark rfl rfl
  have h := hf _ _ (hg _ _ (hcomma.append_blank hgap))
  simpa using h

theorem PutsMembers.nil : PutsMembers id [] :=
  ⟨[], .nil, fun before a h => by rwa [List.append_nil]⟩

/-- A member's name goes before its value. -/
theorem Reads.append_name {colon : String} (h : Reads s ts) (hgap : Blank gap)
    (hcolon : Blank colon) (name : String) :
    Reads (s ++ gap ++ quoted name ++ ":" ++ colon) (ts ++ [.text (some name), .colon]) := by
  have hname := (h.append_blank hgap).append (reads_quoted name)
  have hmark : Reads (s ++ gap ++ quoted name ++ ":") (ts ++ [.text (some name)] ++ [.colon]) :=
    hname.closes.append_mark rfl rfl
  rw [List.append_assoc] at hmark
  exact hmark.append_blank hcolon

theorem PutsMembers.cons {colon : String} (hgap : Blank gap) (hcolon : Blank colon) (hg : Puts g v)
    (hf : PutsMembers f members) (name : String) :
    PutsMembers (fun before => f (g (before ++ "," ++ gap ++ quoted name ++ ":" ++ colon)))
      ((name, v) :: members) := by
  obtain ⟨ts, hv, hg⟩ := hg
  obtain ⟨ts', hmembers, hf⟩ := hf
  refine ⟨.comma :: .text (some name) :: .colon :: (ts ++ ts'), .cons hv hmembers,
    fun before a hbefore => ?_⟩
  have hcomma : Reads (before ++ ",") (a ++ [.comma]) := hbefore.append_mark rfl rfl
  have h := hf _ _ (hg _ _ (hcomma.append_name hgap hcolon name))
  simpa using h

theorem Puts.emptyArray : Puts (fun before => before ++ "[" ++ "]") (.array []) := by
  refine ⟨_, .emptyArray, fun before a hbefore => ?_⟩
  have hopen : Reads (before ++ "[") (a ++ [.leftBracket]) := hbefore.closes.append_mark rfl rfl
  have hclose : Reads (before ++ "[" ++ "]") (a ++ [.leftBracket] ++ [.rightBracket]) :=
    hopen.closes.append_mark rfl rfl
  simpa using hclose.closes

theorem Puts.array {last : String} (hgap : Blank gap) (hlast : Blank last) (hg : Puts g v)
    (hf : PutsItems f items) :
    Puts (fun before => f (g (before ++ "[" ++ gap)) ++ last ++ "]") (.array (v :: items)) := by
  obtain ⟨ts, hv, hg⟩ := hg
  obtain ⟨ts', hitems, hf⟩ := hf
  refine ⟨_, .array hv hitems, fun before a hbefore => ?_⟩
  have hopen : Reads (before ++ "[") (a ++ [.leftBracket]) := hbefore.closes.append_mark rfl rfl
  have hfilled := (hf _ _ (hg _ _ (hopen.append_blank hgap))).append_blank hlast
  have hclose : Reads (f (g (before ++ "[" ++ gap)) ++ last ++ "]") (_ ++ [.rightBracket]) :=
    hfilled.append_mark rfl rfl
  simpa using hclose.closes

theorem Puts.emptyObject : Puts (fun before => before ++ "\x7b" ++ "\x7d") (.object []) := by
  refine ⟨_, .emptyObject, fun before a hbefore => ?_⟩
  have hopen : Reads (before ++ "\x7b") (a ++ [.leftBrace]) := hbefore.closes.append_mark rfl rfl
  have hclose : Reads (before ++ "\x7b" ++ "\x7d") (a ++ [.leftBrace] ++ [.rightBrace]) :=
    hopen.closes.append_mark rfl rfl
  simpa using hclose.closes

theorem Puts.object {colon last : String} (hgap : Blank gap) (hcolon : Blank colon)
    (hlast : Blank last) (hg : Puts g v) (hf : PutsMembers f members) (name : String) :
    Puts (fun before =>
        f (g (before ++ "\x7b" ++ gap ++ quoted name ++ ":" ++ colon)) ++ last ++ "\x7d")
      (.object ((name, v) :: members)) := by
  obtain ⟨ts, hv, hg⟩ := hg
  obtain ⟨ts', hmembers, hf⟩ := hf
  refine ⟨_, .object hv hmembers, fun before a hbefore => ?_⟩
  have hopen : Reads (before ++ "\x7b") (a ++ [.leftBrace]) := hbefore.closes.append_mark rfl rfl
  have hfilled := (hf _ _ (hg _ _ (hopen.append_name hgap hcolon name))).append_blank hlast
  have hclose : Reads (f (g (before ++ "\x7b" ++ gap ++ quoted name ++ ":" ++ colon)) ++ last ++
      "\x7d") (_ ++ [.rightBrace]) := hfilled.append_mark rfl rfl
  simpa using hclose.closes

theorem blank_empty : Blank "" := fun c h => absurd h (by simp)

theorem blank_newline (depth : Nat) : Blank (newline depth) := by
  intro c h
  rw [newline, String.toList_append, List.mem_append] at h
  rcases h with h | h
  · obtain rfl : c = '\n' := by simpa using h
    rfl
  · rw [String.toList_ofList] at h
    rw [List.eq_of_mem_replicate h]
    rfl

theorem parse_toString {n : Int} (hlow : -0x8000000000000000 ≤ n)
    (hhigh : n < 0x10000000000000000) : parse? (toString n) = some (.integer n) :=
  parse_eq_some_iff.2 ⟨_, closes_integer hlow hhigh, .scalar _⟩

theorem parse_quoted (s : String) : parse? (quoted s) = some (.string s) :=
  parse_eq_some_iff.2 ⟨_, (reads_quoted s).closes, .text s⟩

theorem parse_bool (b : Bool) : parse? (if b then "true" else "false") = some (.bool b) := by
  cases b <;> rfl

theorem puts_single {x : Float32} (h : (single x).Printable) :
    ∃ w, (single x).Reread w ∧ Puts (fun before => write before (.single x)) w := by
  obtain ⟨hfinite, y, hparse, hy⟩ := h
  rw [compact, write, String.empty_append] at hparse
  exact ⟨_, .single hfinite hy, .append hparse⟩

theorem puts_double {x : Float} (h : (double x).Printable) :
    ∃ w, (double x).Reread w ∧ Puts (fun before => write before (.double x)) w := by
  obtain ⟨hfinite, hparse⟩ := h
  rw [compact, write, String.empty_append] at hparse
  exact ⟨_, .double hfinite, .append hparse⟩

mutual

/-- On one line a value can be put behind any text. -/
theorem puts_write : (v : Json) → v.Printable →
    ∃ w, v.Reread w ∧ Puts (fun before => write before v) w
  | .null, _ => ⟨_, .null, .append rfl⟩
  | .bool b, _ => ⟨_, .bool b, .append (parse_bool b)⟩
  | .integer n, h => ⟨_, .integer n, .append (parse_toString h.1 h.2)⟩
  | .single _, h => puts_single h
  | .double _, h => puts_double h
  | .string s, _ => ⟨_, .string s, .append (parse_quoted s)⟩
  | .array [], _ => ⟨_, .array .nil, .emptyArray⟩
  | .array (item :: items), ⟨hitem, hitems⟩ => by
    obtain ⟨w, hw, hput⟩ := puts_write item hitem
    obtain ⟨ws, hws, hputs⟩ := puts_writeItems items hitems
    have h := Puts.array blank_empty blank_empty hput hputs
    simp only [String.append_empty] at h
    exact ⟨_, .array (.cons hw hws), h⟩
  | .object [], _ => ⟨_, .object .nil, .emptyObject⟩
  | .object ((name, value) :: members), ⟨hvalue, hmembers⟩ => by
    obtain ⟨w, hw, hput⟩ := puts_write value hvalue
    obtain ⟨ws, hws, hputs⟩ := puts_writeMembers members hmembers
    have h := Puts.object blank_empty blank_empty blank_empty hput hputs name
    simp only [String.append_empty] at h
    exact ⟨_, .object (.cons name hw hws), h⟩

theorem puts_writeItems : (items : List Json) → PrintableItems items →
    ∃ ws, RereadItems items ws ∧ PutsItems (fun before => writeItems before false items) ws
  | [], _ => ⟨_, .nil, .nil⟩
  | item :: items, ⟨hitem, hitems⟩ => by
    obtain ⟨w, hw, hput⟩ := puts_write item hitem
    obtain ⟨ws, hws, hputs⟩ := puts_writeItems items hitems
    have h := PutsItems.cons blank_empty hput hputs
    simp only [String.append_empty] at h
    exact ⟨_, .cons hw hws, h⟩

theorem puts_writeMembers : (members : List (String × Json)) → PrintableMembers members →
    ∃ ws, RereadMembers members ws ∧
      PutsMembers (fun before => writeMembers before false members) ws
  | [], _ => ⟨_, .nil, .nil⟩
  | (name, value) :: members, ⟨hvalue, hmembers⟩ => by
    obtain ⟨w, hw, hput⟩ := puts_write value hvalue
    obtain ⟨ws, hws, hputs⟩ := puts_writeMembers members hmembers
    have h := PutsMembers.cons blank_empty blank_empty hput hputs name
    simp only [String.append_empty] at h
    exact ⟨_, .cons name hw hws, h⟩

end

theorem blank_space : Blank " " := by
  intro c h
  obtain rfl : c = ' ' := by simpa using h
  rfl

theorem parse_emptyArray : parse? "[]" = some (.array []) := rfl

theorem parse_emptyObject : parse? "\x7b\x7d" = some (.object []) := rfl

theorem append_colon (s : String) : s ++ ":" ++ " " = s ++ ": " := by
  rw [String.append_assoc]
  rfl

mutual

/-- So it can be where it is indented. -/
theorem puts_indent (depth : Nat) : (v : Json) → v.Printable →
    ∃ w, v.Reread w ∧ Puts (fun before => indent depth before v) w
  | .null, _ => ⟨_, .null, .append rfl⟩
  | .bool b, _ => ⟨_, .bool b, .append (parse_bool b)⟩
  | .integer n, h => ⟨_, .integer n, .append (parse_toString h.1 h.2)⟩
  | .single _, h => puts_single h
  | .double _, h => puts_double h
  | .string s, _ => ⟨_, .string s, .append (parse_quoted s)⟩
  | .array [], _ => ⟨_, .array .nil, .append parse_emptyArray⟩
  | .array (item :: items), ⟨hitem, hitems⟩ => by
    obtain ⟨w, hw, hput⟩ := puts_indent (depth + 1) item hitem
    obtain ⟨ws, hws, hputs⟩ := puts_indentItems (depth + 1) items hitems
    have h := Puts.array (blank_newline (depth + 1)) (blank_newline depth) hput hputs
    exact ⟨_, .array (.cons hw hws), h⟩
  | .object [], _ => ⟨_, .object .nil, .append parse_emptyObject⟩
  | .object ((name, value) :: members), ⟨hvalue, hmembers⟩ => by
    obtain ⟨w, hw, hput⟩ := puts_indent (depth + 1) value hvalue
    obtain ⟨ws, hws, hputs⟩ := puts_indentMembers (depth + 1) members hmembers
    have h := Puts.object (blank_newline (depth + 1)) blank_space (blank_newline depth) hput hputs
      name
    simp only [append_colon] at h
    exact ⟨_, .object (.cons name hw hws), h⟩

theorem puts_indentItems (depth : Nat) : (items : List Json) → PrintableItems items →
    ∃ ws, RereadItems items ws ∧ PutsItems (fun before => indentItems depth before false items) ws
  | [], _ => ⟨_, .nil, .nil⟩
  | item :: items, ⟨hitem, hitems⟩ => by
    obtain ⟨w, hw, hput⟩ := puts_indent depth item hitem
    obtain ⟨ws, hws, hputs⟩ := puts_indentItems depth items hitems
    have h := PutsItems.cons (blank_newline depth) hput hputs
    exact ⟨_, .cons hw hws, h⟩

theorem puts_indentMembers (depth : Nat) : (members : List (String × Json)) →
    PrintableMembers members → ∃ ws, RereadMembers members ws ∧
      PutsMembers (fun before => indentMembers depth before false members) ws
  | [], _ => ⟨_, .nil, .nil⟩
  | (name, value) :: members, ⟨hvalue, hmembers⟩ => by
    obtain ⟨w, hw, hput⟩ := puts_indent depth value hvalue
    obtain ⟨ws, hws, hputs⟩ := puts_indentMembers depth members hmembers
    have h := PutsMembers.cons (blank_newline depth) blank_space hput hputs name
    simp only [append_colon] at h
    exact ⟨_, .cons name hw hws, h⟩

end

/-- What is printed is read back, floats aside. -/
theorem parse_printed {v : Json} (h : v.Printable) :
    (∃ w, parse? v.compact = some w ∧ v.Reread w) ∧
      ∃ w, parse? v.indented = some w ∧ v.Reread w := by
  obtain ⟨w, hw, hputs⟩ := puts_write v h
  obtain ⟨w', hw', hputs'⟩ := puts_indent 0 v h
  exact ⟨⟨w, hputs.parse, hw⟩, w', hputs'.parse, hw'⟩

end CodeWeaving.Json
