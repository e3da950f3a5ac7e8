import CodeWeaving.Json.Printer
import CodeWeaving.Json.Reader

/-! Printed text falls apart into the tokens it was put together from. -/
namespace CodeWeaving.Json

variable {s s' : String} {ts ts' toks : List Token} {t : Token} {c : Char} {cs : List Char}
  {v : Json} {l l' : Lexer}

namespace Lexer

/-- The tokens once a word that is being read is over. -/
def closed (l : Lexer) : Option (List Token) :=
  match l.lexeme with
  | .gap => some l.tokens
  | .word read => endWord l.tokens read
  | _ => none

theorem finish_eq_closed (l : Lexer) : l.finish = l.closed.map List.reverse := by
  obtain ⟨tokens, lexeme⟩ := l
  cases lexeme <;> rfl

/-- Between words, all that matters is the tokens there are. -/
theorem step_of_closed (h : l.closed = some toks) (hc : isWordChar c = false) :
    l.step c = between toks c := by
  obtain ⟨tokens, lexeme⟩ := l
  cases lexeme with
  | gap =>
    cases h
    rfl
  | word read =>
    have h : endWord tokens read = some toks := h
    simp [step, hc, h]
  | text | escape | unicode => cases h

end Lexer

theorem not_blank_of_isWordChar (h : isWordChar c = true) : isBlank c = false ∧ c ≠ '"' := by
  constructor
  · refine Bool.eq_false_iff.2 fun hblank => ?_
    simp only [isBlank, Bool.or_eq_true, decide_eq_true_eq] at hblank
    rcases hblank with ((rfl | rfl) | rfl) | rfl <;> exact absurd h (by decide)
  · rintro rfl
    exact absurd h (by decide)

theorem isWordChar_of_mark (h : mark? c = some t) : isWordChar c = false := by
  unfold mark? at h
  split at h <;> cases h <;> rfl

theorem between_mark (h : mark? c = some t) :
    Lexer.between toks c = some ⟨t :: toks, .gap⟩ := by
  have hplain : isBlank c = false ∧ c ≠ '"' := by
    unfold mark? at h
    split at h <;> cases h <;> exact ⟨rfl, by decide⟩
  rw [Lexer.between, hplain.1, isWordChar_of_mark h, if_neg hplain.2, h]
  rfl

theorem between_blank (h : isBlank c = true) : Lexer.between toks c = some ⟨toks, .gap⟩ :=
  if_pos h

theorem isWordChar_of_blank (h : isBlank c = true) : isWordChar c = false := by
  simp only [isBlank, Bool.or_eq_true, decide_eq_true_eq] at h
  rcases h with ((rfl | rfl) | rfl) | rfl <;> rfl

/-- The text is made of whole tokens; nothing that follows changes them. -/
def Reads (s : String) (ts : List Token) : Prop :=
  ∀ toks, s.toList.foldlM Lexer.step ⟨toks, .gap⟩ = some ⟨ts.reverse ++ toks, .gap⟩

/-- The text is made of the tokens, the last of which may be a word that goes on. -/
def Closes (s : String) (ts : List Token) : Prop :=
  ∀ toks, ∃ l, s.toList.foldlM Lexer.step ⟨toks, .gap⟩ = some l ∧
    l.closed = some (ts.reverse ++ toks)

theorem Reads.nil : Reads "" [] := fun _ => rfl

theorem Reads.closes (h : Reads s ts) : Closes s ts := fun toks => ⟨_, h toks, rfl⟩

theorem Reads.append (h : Reads s ts) (h' : Reads s' ts') : Reads (s ++ s') (ts ++ ts') := by
  intro toks
  rw [String.toList_append, List.foldlM_append, h toks, List.reverse_append, List.append_assoc]
  exact h' _

theorem Reads.append_closes (h : Reads s ts) (h' : Closes s' ts') :
    Closes (s ++ s') (ts ++ ts') := by
  intro toks
  rw [String.toList_append, List.foldlM_append, h toks, List.reverse_append, List.append_assoc]
  exact h' _

theorem Closes.append_mark (h : Closes s ts) (hs : s'.toList = [c]) (hc : mark? c = some t) :
    Reads (s ++ s') (ts ++ [t]) := by
  intro toks
  obtain ⟨l, hl, hclosed⟩ := h toks
  rw [String.toList_append, List.foldlM_append, hl, hs]
  show List.foldlM Lexer.step l [c] = _
  rw [List.foldlM_cons, Lexer.step_of_closed hclosed (isWordChar_of_mark hc), between_mark hc]
  simp

theorem reads_blanks (h : ∀ c ∈ cs, isBlank c = true) : Reads (String.ofList cs) [] := by
  intro toks
  rw [String.toList_ofList]
  induction cs with
  | nil => rfl
  | cons c cs ih =>
    obtain ⟨hc, hcs⟩ := List.forall_mem_cons.1 h
    rw [List.foldlM_cons]
    show (Lexer.between toks c >>= fun l => cs.foldlM Lexer.step l) = _
    rw [between_blank hc]
    exact ih hcs

/-- Blanks end a word. -/
theorem Closes.append_blanks (h : Closes s ts) (hs : s'.toList = c :: cs)
    (hblank : ∀ c' ∈ c :: cs, isBlank c' = true) : Reads (s ++ s') ts := by
  intro toks
  obtain ⟨l, hl, hclosed⟩ := h toks
  obtain ⟨hc, hcs⟩ := List.forall_mem_cons.1 hblank
  have hrest := reads_blanks hcs (ts.reverse ++ toks)
  rw [String.toList_ofList] at hrest
  rw [String.toList_append, List.foldlM_append, hl, hs]
  show List.foldlM Lexer.step l (c :: cs) = _
  rw [List.foldlM_cons, Lexer.step_of_closed hclosed (isWordChar_of_blank hc), between_blank hc]
  exact hrest

section

variable {codes : List Nat}

theorem hexValue_digitChar : ∀ d < 16, hexValue? (Nat.digitChar d) = some d := by decide

/-- An escaped character is read as its code. -/
theorem foldlM_escape (toks : List Token) (codes : List Nat) (c : Char) :
    (escape c).foldlM Lexer.step ⟨toks, .text codes⟩ = some ⟨toks, .text (c.toNat :: codes)⟩ := by
  unfold escape
  split
  case h_8 _ h₁ h₂ _ _ _ _ _ =>
    split
    · rename_i hcontrol
      have hhigh := hexValue_digitChar (c.toNat / 16) (by omega)
      have hlow := hexValue_digitChar (c.toNat % 16) (by omega)
      have hvalue : c.toNat / 16 * 16 + c.toNat % 16 = c.toNat := by omega
      have hzero : hexValue? '0' = some 0 := by decide
      simp [Lexer.step, hhigh, hlow, hzero, hvalue]
    · rename_i hcontrol
      simp [Lexer.step, hcontrol, show c ≠ '\\' from h₂, show c ≠ '"' from h₁]
  all_goals rfl

theorem foldlM_escapes (toks : List Token) (codes : List Nat) (cs : List Char) :
    (cs.flatMap escape).foldlM Lexer.step ⟨toks, .text codes⟩ =
      some ⟨toks, .text ((cs.map Char.toNat).reverse ++ codes)⟩ := by
  induction cs generalizing codes with
  | nil => rfl
  | cons c cs ih =>
    rw [List.flatMap_cons, List.foldlM_append, foldlM_escape]
    show List.foldlM Lexer.step _ _ = _
    rw [ih, List.map_cons, List.reverse_cons, List.append_assoc]
    rfl

theorem not_half (c : Char) : Text.isLowHalf c.toNat = false ∧ Text.isHighHalf c.toNat = false := by
  have h : c.toNat < 0xd800 ∨ 0xdfff < c.toNat ∧ c.toNat < 0x110000 := c.valid
  simp only [Text.isLowHalf, Text.isHighHalf, Bool.and_eq_false_iff, decide_eq_false_iff_not]
  omega

theorem characters_of_chars (text cs : List Char) :
    Text.characters? text (cs.map Char.toNat) = some (cs.reverse ++ text) := by
  induction cs generalizing text with
  | nil => rfl
  | cons c cs ih =>
    rw [List.map_cons, Text.characters?.eq_def]
    dsimp only
    rw [if_neg (by simp [(not_half c).1]), if_neg (by simp [(not_half c).2]), Char.ofNat_toNat, ih,
      List.reverse_cons, List.append_assoc]
    rfl

/-- A quoted text is one token. -/
theorem reads_quoted (s : String) : Reads (quoted s) [.text (some s)] := by
  intro toks
  have hopen : Lexer.step ⟨toks, .gap⟩ '"' = some ⟨toks, .text []⟩ := rfl
  have hcodes : Text.ofCodes? ((s.toList.map Char.toNat).reverse ++ []) = some s := by
    rw [List.append_nil, Text.ofCodes?, ← List.map_reverse, characters_of_chars,
      List.reverse_reverse, List.append_nil]
    rw [Option.map_some, String.ofList_toList]
  rw [quoted, String.toList_ofList, List.cons_append, List.foldlM_cons, hopen]
  show List.foldlM Lexer.step _ _ = _
  rw [List.foldlM_append, foldlM_escapes]
  show (some (⟨.text (Text.ofCodes? _) :: toks, .gap⟩ : Lexer)) = _
  rw [hcodes]
  rfl

end

section

theorem foldlM_wordChars {read : List Char} (h : ∀ c ∈ cs, isWordChar c = true) :
    cs.foldlM Lexer.step ⟨toks, .word read⟩ = some ⟨toks, .word (cs.reverse ++ read)⟩ := by
  induction cs generalizing read with
  | nil => rfl
  | cons c cs ih =>
    obtain ⟨hc, hcs⟩ := List.forall_mem_cons.1 h
    have hstep : Lexer.step ⟨toks, .word read⟩ c = some ⟨toks, .word (c :: read)⟩ := if_pos hc
    rw [List.foldlM_cons, hstep]
    show List.foldlM Lexer.step _ cs = _
    rw [ih hcs, List.reverse_cons, List.append_assoc]
    rfl

/-- A word is one token, if it means something. -/
theorem closes_word (hcs : cs ≠ []) (h : ∀ c ∈ cs, isWordChar c = true)
    (hword : word? cs = some v) : Closes (String.ofList cs) [.scalar v] := by
  intro toks
  cases cs with
  | nil => exact absurd rfl hcs
  | cons c cs =>
    obtain ⟨hc, hrest⟩ := List.forall_mem_cons.1 h
    obtain ⟨hblank, hquote⟩ := not_blank_of_isWordChar hc
    have hstep : Lexer.step ⟨toks, .gap⟩ c = some ⟨toks, .word [c]⟩ := by
      show Lexer.between toks c = _
      rw [Lexer.between, hblank, if_neg Bool.false_ne_true, if_neg hquote, if_pos hc]
    refine ⟨⟨toks, .word (cs.reverse ++ [c])⟩, ?_, ?_⟩
    · rw [String.toList_ofList, List.foldlM_cons, hstep]
      exact foldlM_wordChars hrest
    · rw [← List.reverse_cons, Lexer.closed]
      dsimp only
      rw [Lexer.endWord, List.reverse_reverse, hword]
      rfl

variable {n : Nat}

theorem le_foldl_digits (cs : List Char) (n : Nat) :
    n ≤ cs.foldl (fun n c => n * 10 + (c.toNat - '0'.toNat)) n := by
  induction cs generalizing n with
  | nil => exact Nat.le_refl n
  | cons c cs ih =>
    have hgrown : n ≤ n * 10 + (c.toNat - '0'.toNat) := by omega
    exact Nat.le_trans hgrown (ih _)

theorem absorb_of_lt (h : cs.foldl (fun n c => n * 10 + (c.toNat - '0'.toNat)) n < UInt64.size) :
    absorb n cs = (cs.foldl (fun n c => n * 10 + (c.toNat - '0'.toNat)) n, []) := by
  induction cs generalizing n with
  | nil => rfl
  | cons c cs ih =>
    rw [List.foldl_cons] at h ⊢
    rw [absorb, if_pos (Nat.lt_of_le_of_lt (le_foldl_digits cs _) h)]
    exact ih h

theorem digitsValue_toDigits (n : Nat) : digitsValue (Nat.toDigits 10 n) = n := by
  have h := @Nat.ofDigitChars_ten_toDigits n
  unfold Nat.ofDigitChars at h
  simp only [Nat.mul_comm 10] at h
  exact h

/-- Only zero starts with a zero. -/
theorem head?_toDigits (h : 0 < n) : (Nat.toDigits 10 n).head? ≠ some '0' := by
  induction n using Nat.strongRecOn with
  | ind n ih =>
    by_cases hlt : n < 10
    · have hdigit : ∀ d < 10, 0 < d → [Nat.digitChar d].head? ≠ some '0' := by decide
      rw [Nat.toDigits_of_lt_base hlt]
      exact hdigit n hlt h
    · rw [Nat.toDigits_of_base_le (by decide) (by omega), List.head?_append,
        Option.or_of_isSome (by simp [Nat.toDigits_ne_nil])]
      exact ih (n / 10) (by omega) (by omega)

theorem span_toDigits (n : Nat) :
    (Nat.toDigits 10 n).takeWhile Char.isDigit = Nat.toDigits 10 n ∧
      (Nat.toDigits 10 n).dropWhile Char.isDigit = [] := by
  have h : ∀ c ∈ Nat.toDigits 10 n, c.isDigit = true := fun c hc =>
    Nat.isDigit_of_mem_toDigits (by decide) (by decide) hc
  have htake : (Nat.toDigits 10 n ++ []).takeWhile Char.isDigit = Nat.toDigits 10 n ++ [] :=
    List.takeWhile_append_of_pos h
  have hdrop : (Nat.toDigits 10 n ++ []).dropWhile Char.isDigit = [] :=
    List.dropWhile_append_of_pos h
  rw [List.append_nil] at htake hdrop
  exact ⟨htake, hdrop⟩

/-- A number without sign, fraction and exponent. -/
theorem number_toDigits (n : Nat) (negative : Bool) :
    number? (if negative then '-' :: Nat.toDigits 10 n else Nat.toDigits 10 n) =
      some (wholeNumber negative (Nat.toDigits 10 n)) := by
  obtain ⟨htake, hdrop⟩ := span_toDigits n
  have hform : ¬ (Nat.toDigits 10 n = [] ∨
      ((Nat.toDigits 10 n).head? = some '0' ∧ 1 < (Nat.toDigits 10 n).length)) := by
    rintro (hnil | ⟨hhead, hlength⟩)
    · exact Nat.toDigits_ne_nil hnil
    · rcases Nat.eq_zero_or_pos n with rfl | hpos
      · exact absurd hlength (by decide)
      · exact head?_toDigits hpos hhead
  cases negative with
  | true =>
    rw [if_pos rfl, number?]
    dsimp only
    rw [htake, hdrop, if_neg hform]
  | false =>
    have hminus : ∀ r, Nat.toDigits 10 n ≠ '-' :: r := by
      intro r h
      have hmem : '-' ∈ Nat.toDigits 10 n := h ▸ List.mem_cons_self
      exact absurd (Nat.isDigit_of_mem_toDigits (by decide) (by decide) hmem) (by decide)
    rw [if_neg Bool.false_ne_true, number?]
    · dsimp only
      rw [htake, hdrop, if_neg hform]
    · exact hminus

theorem wholeNumber_toDigits (h : n < UInt64.size) :
    wholeNumber false (Nat.toDigits 10 n) = .integer n ∧
      (n ≠ 0 → n ≤ 0x8000000000000000 → wholeNumber true (Nat.toDigits 10 n) = .integer (-n)) := by
  have hvalue := digitsValue_toDigits n
  have habsorb : absorb 0 (Nat.toDigits 10 n) = (n, []) := by
    rw [absorb_of_lt (by rw [← digitsValue, hvalue]; exact h), ← digitsValue, hvalue]
  refine ⟨?_, fun hne hle => ?_⟩
  · simp [wholeNumber, habsorb, hvalue]
  · simp [wholeNumber, habsorb, hvalue, hne, hle]

/-- An integer's text, with its sign and digits. -/
theorem toList_toString (n : Int) : (toString n).toList =
    if n < 0 then '-' :: Nat.toDigits 10 n.natAbs else Nat.toDigits 10 n.natAbs := by
  rw [Int.toString_eq_repr, Int.repr_eq_if]
  by_cases h : 0 ≤ n
  · have habs : n.toNat = n.natAbs := by omega
    rw [if_pos h, if_neg (by omega), Nat.toList_repr, habs]
  · have habs : (-n).toNat = n.natAbs := by omega
    rw [if_neg h, if_pos (by omega), String.toList_append, Nat.toList_repr, habs]
    rfl

/-- What starts like a number is none of the words with a meaning of their own. -/
theorem word_of_number (h : ∀ c, cs.head? = some c → c.isDigit = true ∨ c = '-') :
    word? cs = number? cs := by
  have hne {w : List Char} {c : Char} (hhead : w.head? = some c)
      (hc : ¬ (c.isDigit = true ∨ c = '-')) : cs ≠ w := by
    rintro rfl
    exact hc (h c hhead)
  have hnull : cs ≠ "null".toList := hne rfl (by decide)
  have htrue : cs ≠ "true".toList := hne rfl (by decide)
  have hfalse : cs ≠ "false".toList := hne rfl (by decide)
  rw [word?, if_neg hnull, if_neg htrue, if_neg hfalse]

/-- Integers of sixty-four bits are read back. -/
theorem word_toString {n : Int} (hlow : -0x8000000000000000 ≤ n) (hhigh : n < 0x10000000000000000) :
    word? (toString n).toList = some (.integer n) := by
  have hsize : n.natAbs < UInt64.size := by
    rw [show UInt64.size = 18446744073709551616 from rfl]
    omega
  obtain ⟨hpositive, hnegative⟩ := wholeNumber_toDigits hsize
  have hdigit (c : Char) (h : (Nat.toDigits 10 n.natAbs).head? = some c) : c.isDigit = true :=
    Nat.isDigit_of_mem_toDigits (by decide) (by decide) (List.mem_of_head? h)
  rw [toList_toString]
  by_cases hsign : n < 0
  · have hnumber := number_toDigits n.natAbs true
    rw [if_pos rfl] at hnumber
    rw [if_pos hsign, word_of_number ?_, hnumber, hnegative (by omega) (by omega)]
    · exact congrArg (fun i => some (Json.integer i)) (by omega)
    · rintro c ⟨⟩
      exact .inr rfl
  · have hnumber := number_toDigits n.natAbs false
    rw [if_neg Bool.false_ne_true] at hnumber
    rw [if_neg hsign, word_of_number fun c h => .inl (hdigit c h), hnumber, hpositive]
    exact congrArg (fun i => some (Json.integer i)) (by omega)

theorem closes_integer {n : Int} (hlow : -0x8000000000000000 ≤ n)
    (hhigh : n < 0x10000000000000000) : Closes (toString n) [.scalar (.integer n)] := by
  have hdigits (c : Char) (h : c ∈ Nat.toDigits 10 n.natAbs) : isWordChar c = true := by
    have hdigit := Nat.isDigit_of_mem_toDigits (by decide) (by decide) h
    simp [isWordChar, Char.isAlphanum, hdigit]
  have h := closes_word ?_ ?_ (word_toString hlow hhigh)
  · rwa [String.ofList_toList] at h
  · rw [toList_toString]
    split
    · exact List.cons_ne_nil _ _
    · exact Nat.toDigits_ne_nil
  · rw [toList_toString]
    split
    · exact List.forall_mem_cons.2 ⟨rfl, hdigits⟩
    · exact hdigits

end

/-- The lexer with more tokens behind those it has. -/
def Lexer.atop (toks : List Token) (l : Lexer) : Lexer := ⟨l.tokens ++ toks, l.lexeme⟩

theorem Lexer.between_atop (tokens : List Token) (c : Char) :
    between (tokens ++ toks) c = (between tokens c).map (Lexer.atop toks) := by
  unfold between
  split
  · rfl
  · split
    · rfl
    · split
      · rfl
      · cases mark? c <;> rfl

/-- A character is read without a look at the tokens there are. -/
theorem Lexer.step_atop (l : Lexer) (c : Char) :
    (l.atop toks).step c = (l.step c).map (Lexer.atop toks) := by
  obtain ⟨tokens, lexeme⟩ := l
  cases lexeme with
  | gap => exact between_atop tokens c
  | word read =>
    simp only [step, atop, endWord]
    split
    · rfl
    · cases word? read.reverse with
      | none => rfl
      | some v => exact between_atop (.scalar v :: tokens) c
  | text codes =>
    simp only [step, atop]
    split
    · rfl
    · split
      · rfl
      · split <;> rfl
  | escape codes =>
    simp only [step, atop]
    split
    · rfl
    · cases simpleEscape? c <;> rfl
  | unicode codes digits value =>
    simp only [step, atop]
    cases hexValue? c with
    | none => rfl
    | some d =>
      show (if digits = 3 then _ else _) = Option.map _ (if digits = 3 then _ else _)
      split <;> rfl

theorem Lexer.foldlM_atop (toks : List Token) (cs : List Char) (l : Lexer) :
    cs.foldlM step (l.atop toks) = (cs.foldlM step l).map (Lexer.atop toks) := by
  induction cs generalizing l with
  | nil => rfl
  | cons c cs ih =>
    rw [List.foldlM_cons, List.foldlM_cons, step_atop]
    cases l.step c with
    | none => rfl
    | some l => exact ih l

/-- To be made of tokens behind any others is to be made of them alone. -/
theorem closes_iff_tokens : Closes s ts ↔ tokens? s = some ts := by
  constructor
  · intro h
    obtain ⟨l, hl, hclosed⟩ := h []
    rw [tokens?, hl]
    show l.finish = _
    rw [Lexer.finish_eq_closed, hclosed]
    simp
  · intro h toks
    obtain ⟨l, hl, hfinish⟩ := Option.bind_eq_some_iff.1 h
    rw [Lexer.finish_eq_closed] at hfinish
    obtain ⟨closed, hclosed, rfl⟩ := Option.map_eq_some_iff.1 hfinish
    refine ⟨l.atop toks, ?_, ?_⟩
    · have hatop := Lexer.foldlM_atop toks s.toList ⟨[], .gap⟩
      rw [hl] at hatop
      exact hatop
    · rw [List.reverse_reverse]
      obtain ⟨tokens, lexeme⟩ := l
      cases lexeme with
      | gap =>
        cases hclosed
        rfl
      | word read =>
        obtain ⟨v, hv, rfl⟩ := Option.map_eq_some_iff.1 hclosed
        show (word? read.reverse).map _ = _
        rw [hv]
        rfl
      | text | escape | unicode => cases hclosed

end CodeWeaving.Json
