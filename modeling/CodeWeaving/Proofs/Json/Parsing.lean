import CodeWeaving.Proofs.Json.Lexing

/-! The tokens of a value are read as that value, wherever one is expected. -/
namespace CodeWeaving.Json

variable {s : String} {ts ts' : List Token} {t : Token} {frames more : List Frame} {v : Json}

/-- What is expected with more containers open around. -/
def Expecting.inside (more : List Frame) : Expecting → Expecting
  | .value frames => .value (frames ++ more)
  | .valueOrEnd frames => .valueOrEnd (frames ++ more)
  | .nameOrEnd frames => .nameOrEnd (frames ++ more)
  | .name read frames => .name read (frames ++ more)
  | .colon read key frames => .colon read key (frames ++ more)
  | .after v frames => .after v (frames ++ more)

theorem Expecting.step_inside {e e' : Expecting} (h : e.step t = some e') :
    (e.inside more).step t = some (e'.inside more) := by
  cases e with
  | value frames => cases t <;> cases h <;> rfl
  | valueOrEnd frames => cases t <;> cases h <;> rfl
  | nameOrEnd frames => cases t <;> cases h <;> rfl
  | name read frames =>
    cases t <;> cases h
    rfl
  | colon read key frames =>
    cases t <;> cases h
    rfl
  | after v frames =>
    cases frames with
    | nil => cases t <;> cases h
    | cons frame frames => cases frame <;> cases t <;> cases h <;> rfl

/-- Wherever a value is expected, the tokens are those of this one. -/
def Yields (ts : List Token) (v : Json) : Prop :=
  ∀ frames, ts.foldlM Expecting.step (.value frames) = some (.after v frames)

theorem yields_iff : Yields ts v ↔
    (ts.foldlM Expecting.step (.value []) >>= Expecting.value?) = some v := by
  constructor
  · intro h
    rw [h []]
    rfl
  · intro h frames
    obtain ⟨e, he, hvalue⟩ := Option.bind_eq_some_iff.1 h
    have hinside (ts : List Token) (e e' : Expecting) (h : ts.foldlM Expecting.step e = some e') :
        ts.foldlM Expecting.step (e.inside frames) = some (e'.inside frames) := by
      induction ts generalizing e with
      | nil =>
        cases h
        rfl
      | cons t ts ih =>
        obtain ⟨next, hstep, hrest⟩ := Option.bind_eq_some_iff.1 h
        rw [List.foldlM_cons, Expecting.step_inside hstep]
        exact ih next hrest
    have hdone : e = .after v [] := by
      unfold Expecting.value? at hvalue
      split at hvalue
      · cases hvalue
        rfl
      · cases hvalue
    rw [hdone] at he
    exact hinside ts _ _ he

/-- A text is read as a value if its tokens are those of the value. -/
theorem parse_eq_some_iff : parse? s = some v ↔ ∃ ts, Closes s ts ∧ Yields ts v := by
  simp only [closes_iff_tokens, yields_iff]
  exact Option.bind_eq_some_iff

variable {e e' : Expecting} {items : List Json} {members : List (String × Json)} {name : String}

theorem foldlM_cons_of_step (h : e.step t = some e') :
    (t :: ts).foldlM Expecting.step e = ts.foldlM Expecting.step e' := by
  rw [List.foldlM_cons, h]
  rfl

theorem foldlM_append_of_foldlM (h : ts.foldlM Expecting.step e = some e') :
    (ts ++ ts').foldlM Expecting.step e = ts'.foldlM Expecting.step e' := by
  rw [List.foldlM_append, h]
  rfl

/-- The tokens after a first item and up to the end of the array are those of more items. -/
def YieldsItems (ts : List Token) (items : List Json) : Prop :=
  ∀ (v : Json) (read : List Json) (frames : List Frame),
    (ts ++ [Token.rightBracket]).foldlM Expecting.step (.after v (.items read :: frames)) =
      some (.after (.array ((v :: read).reverse ++ items)) frames)

/-- The tokens after a first member and up to the end of the object are those of more members. -/
def YieldsMembers (ts : List Token) (members : List (String × Json)) : Prop :=
  ∀ (v : Json) (key : Option String) (read : List (Option String × Json)) (frames : List Frame),
    (ts ++ [Token.rightBrace]).foldlM Expecting.step (.after v (.members read key :: frames)) =
      some (.after (.ofMembers (((key, v) :: read).reverse ++ members.map fun m => (some m.1, m.2)))
        frames)

theorem Yields.scalar (v : Json) : Yields [.scalar v] v := fun _ => rfl

theorem Yields.text (s : String) : Yields [.text (some s)] (.string s) := fun _ => rfl

/-- A first item may also be the end of the array, but is not. -/
theorem Yields.first (h : Yields ts v) : ts.foldlM Expecting.step (.valueOrEnd frames) =
    some (.after v (.items [] :: frames)) := by
  have hfirst := h (.items [] :: frames)
  cases ts with
  | nil => cases hfirst
  | cons t ts =>
    cases t with
    | rightBracket => cases hfirst
    | _ => exact hfirst

theorem YieldsItems.nil : YieldsItems [] [] := by
  intro v read frames
  rw [List.append_nil]
  rfl

theorem YieldsItems.cons (hv : Yields ts v) (h : YieldsItems ts' items) :
    YieldsItems (.comma :: (ts ++ ts')) (v :: items) := by
  intro first read frames
  have hrest := h v (first :: read) frames
  rw [List.reverse_cons, List.append_assoc] at hrest
  rw [List.cons_append, List.append_assoc, foldlM_cons_of_step rfl, foldlM_append_of_foldlM (hv _)]
  exact hrest

theorem YieldsMembers.nil : YieldsMembers [] [] := by
  intro v key read frames
  rw [List.map_nil, List.append_nil]
  rfl

theorem YieldsMembers.cons (hv : Yields ts v) (h : YieldsMembers ts' members) :
    YieldsMembers (.comma :: .text (some name) :: .colon :: (ts ++ ts'))
      ((name, v) :: members) := by
  intro first key read frames
  have hrest := h v (some name) ((key, first) :: read) frames
  rw [List.reverse_cons, List.append_assoc] at hrest
  rw [List.cons_append, List.cons_append, List.cons_append, List.append_assoc,
    foldlM_cons_of_step rfl, foldlM_cons_of_step rfl, foldlM_cons_of_step rfl,
    foldlM_append_of_foldlM (hv _)]
  exact hrest

theorem Yields.emptyArray : Yields [.leftBracket, .rightBracket] (.array []) := fun _ => rfl

theorem Yields.array (hv : Yields ts v) (h : YieldsItems ts' items) :
    Yields (.leftBracket :: (ts ++ (ts' ++ [.rightBracket]))) (.array (v :: items)) := by
  intro frames
  rw [foldlM_cons_of_step rfl, foldlM_append_of_foldlM hv.first]
  exact h v [] frames

theorem Yields.emptyObject : Yields [.leftBrace, .rightBrace] (.object []) := fun _ => rfl

theorem mapM_of_named {members : List (String × Json)}
    {f : Option String × Json → Option (String × Json)} (hf : ∀ m, f (some m.1, m.2) = some m) :
    (members.map fun m => (some m.1, m.2)).mapM f = some members := by
  induction members with
  | nil => rfl
  | cons m members ih =>
    rw [List.map_cons, List.mapM_cons, hf, ih]
    rfl

theorem ofMembers_map_some (members : List (String × Json)) :
    ofMembers (members.map fun m => (some m.1, m.2)) = .object members := by
  rw [ofMembers, mapM_of_named fun m => rfl]

theorem Yields.object (hv : Yields ts v) (h : YieldsMembers ts' members) :
    Yields (.leftBrace :: .text (some name) :: .colon :: (ts ++ (ts' ++ [.rightBrace])))
      (.object ((name, v) :: members)) := by
  intro frames
  rw [foldlM_cons_of_step rfl, foldlM_cons_of_step rfl, foldlM_cons_of_step rfl,
    foldlM_append_of_foldlM (hv _), ← ofMembers_map_some]
  exact h v (some name) [] frames

end CodeWeaving.Json
