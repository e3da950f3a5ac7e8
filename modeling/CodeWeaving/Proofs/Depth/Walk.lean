import CodeWeaving.Proofs.Depth.Paths

/-! The walk over a body, index by index, and what it finds out about all paths. -/
namespace CodeWeaving

namespace Exploration

variable {code : Code} {labels : LabelMap} {e f g : Exploration} {i : Instruction}
  {next : List Nat} {p q d x : Nat} {err : AnalysisError}

def Reached (e : Exploration) (p d : Nat) : Prop := e.depths[p]? = some (some d)

theorem Reached.lt (h : e.Reached p d) : p < e.depths.length :=
  (List.getElem?_eq_some_iff.1 h).1

theorem Reached.unique (h : e.Reached p d) (h' : e.Reached p x) : d = x := by
  simpa using h.symm.trans h'

theorem Reached.depth_eq (h : e.Reached p d) : e.depth p = d := by
  unfold Reached at h
  simp [depth, h]

/-- `f` comes from `e` by reaching some indices with one depth; the new ones are pending. -/
structure Grown (d : Nat) (next : List Nat) (e f : Exploration) : Prop where
  size : f.depths.length = e.depths.length
  peak : f.peak = e.peak
  keeps : ∀ p x, e.Reached p x → f.Reached p x
  keepsPending : ∀ p ∈ e.pending, p ∈ f.pending
  reaches : ∀ p ∈ next, f.Reached p d
  fresh : ∀ p x, f.Reached p x → e.Reached p x ∨ (p ∈ next ∧ x = d ∧ p ∈ f.pending)
  pending : ∀ p ∈ f.pending, p ∈ e.pending ∨ p ∈ next

theorem grown_nil : Grown d [] e e where
  size := rfl
  peak := rfl
  keeps _ _ h := h
  keepsPending _ h := h
  reaches _ h := by cases h
  fresh _ _ h := Or.inl h
  pending _ h := Or.inl h

theorem Grown.cons (h : Grown d [p] e f) (h' : Grown d next f g) : Grown d (p :: next) e g where
  size := h'.size.trans h.size
  peak := h'.peak.trans h.peak
  keeps q x hq := h'.keeps q x (h.keeps q x hq)
  keepsPending q hq := h'.keepsPending q (h.keepsPending q hq)
  reaches q hq := by
    rcases List.mem_cons.1 hq with rfl | hq
    · exact h'.keeps _ _ (h.reaches _ (List.mem_singleton_self _))
    · exact h'.reaches q hq
  fresh q x hq := by
    rcases h'.fresh q x hq with hf | ⟨hq, hx, hp⟩
    · rcases h.fresh q x hf with he | ⟨hq, hx, hp⟩
      · exact Or.inl he
      · exact Or.inr ⟨List.mem_cons.2 (Or.inl (List.mem_singleton.1 hq)), hx,
          h'.keepsPending q hp⟩
    · exact Or.inr ⟨List.mem_cons_of_mem _ hq, hx, hp⟩
  pending q hq := by
    rcases h'.pending q hq with hf | hq
    · rcases h.pending q hf with he | hq
      · exact Or.inl he
      · exact Or.inr (List.mem_cons.2 (Or.inl (List.mem_singleton.1 hq)))
    · exact Or.inr (List.mem_cons_of_mem _ hq)

theorem reach_ok (h : reach d e p = .ok f) (hp : p < e.depths.length) : Grown d [p] e f := by
  unfold reach at h
  split at h
  · rename_i hnone
    cases h
    have hset (q x : Nat) : (e.depths.set p (some d))[q]? = some (some x) ↔
        if p = q then d = x else e.Reached q x := by
      rw [List.getElem?_set]
      by_cases hq : p = q
      · simp [← hq, hp]
      · simp [hq, Reached]
    refine ⟨List.length_set, rfl, ?_, ?_, ?_, ?_, ?_⟩
    · intro q x hq
      refine (hset q x).2 ?_
      have hne : p ≠ q := by
        rintro rfl
        rw [Reached, hnone] at hq
        cases hq
      simpa [hne] using hq
    · intro q hq
      exact List.mem_cons_of_mem _ hq
    · intro q hq
      obtain rfl := List.mem_singleton.1 hq
      exact (hset q d).2 (by simp)
    · intro q x hq
      have hx := (hset q x).1 hq
      by_cases hpq : p = q
      · rw [if_pos hpq] at hx
        exact Or.inr ⟨by simp [hpq], hx.symm, by simp [hpq]⟩
      · rw [if_neg hpq] at hx
        exact Or.inl hx
    · intro q hq
      rcases List.mem_cons.1 hq with rfl | hq
      · exact Or.inr (by simp)
      · exact Or.inl hq
  · rename_i expected hsome
    split at h
    · rename_i heq
      cases h
      subst heq
      exact ⟨rfl, rfl, fun _ _ h => h, fun _ h => h,
        fun q hq => by obtain rfl := List.mem_singleton.1 hq; exact hsome,
        fun _ _ h => Or.inl h, fun _ h => Or.inl h⟩
    · cases h
  · rename_i hnone
    rw [List.getElem?_eq_none_iff] at hnone
    omega

theorem reach_error (h : reach d e p = .error err) :
    ∃ x, e.Reached p x ∧ x ≠ d ∧ err = .inconsistentDepth p x d := by
  unfold reach at h
  split at h
  · cases h
  · rename_i x hx
    split at h
    · cases h
    · rename_i hne
      cases h
      exact ⟨x, hx, hne, rfl⟩
  · cases h

theorem foldlM_reach_ok (h : next.foldlM (reach d) e = .ok f)
    (hn : ∀ p ∈ next, p < e.depths.length) : Grown d next e f := by
  induction next generalizing e with
  | nil => cases h; exact grown_nil
  | cons p next ih =>
    rw [List.foldlM_cons] at h
    cases hr : reach d e p with
    | error err => rw [hr] at h; cases h
    | ok g =>
      rw [hr] at h
      have hg := reach_ok hr (hn p List.mem_cons_self)
      exact hg.cons (ih h fun q hq => hg.size ▸ hn q (List.mem_cons_of_mem _ hq))

theorem foldlM_reach_error (h : next.foldlM (reach d) e = .error err)
    (hn : ∀ p ∈ next, p < e.depths.length) :
    ∃ p ∈ next, ∃ x, e.Reached p x ∧ x ≠ d ∧ err = .inconsistentDepth p x d := by
  induction next generalizing e with
  | nil => cases h
  | cons p next ih =>
    rw [List.foldlM_cons] at h
    cases hr : reach d e p with
    | error err' =>
      rw [hr] at h
      cases h
      obtain ⟨x, hx⟩ := reach_error hr
      exact ⟨p, List.mem_cons_self, x, hx⟩
    | ok g =>
      rw [hr] at h
      have hg := reach_ok hr (hn p List.mem_cons_self)
      obtain ⟨q, hq, x, hx, hne, herr⟩ :=
        ih h fun q hq => hg.size ▸ hn q (List.mem_cons_of_mem _ hq)
      refine ⟨q, List.mem_cons_of_mem _ hq, x, ?_, hne, herr⟩
      exact (hg.fresh q x hx).resolve_right fun hnew => hne hnew.2.1

/-- The instruction at an index finds its operands, and all it leads to is reached. -/
def Settled (code : Code) (e : Exploration) (p d : Nat) : Prop :=
  ∃ i, code[p]? = some i ∧ i.effect.pops ≤ d ∧ d ≤ e.peak ∧ i.after d ≤ e.peak ∧
    (i.isTerminal = false → e.Reached (p + 1) (i.after d)) ∧
    ∀ l q, i.target? = some l → code[q]? = some (.label l) → e.Reached q (i.after d)

/-- What holds of a walk at any time: depths come from paths, and an index that is reached but not
pending is settled. -/
structure Invariant (code : Code) (e : Exploration) : Prop where
  size : e.depths.length = code.length
  start : e.Reached 0 0
  path : ∀ p d, e.Reached p d → code.Path p d
  settled : ∀ p d, e.Reached p d → p ∈ e.pending ∨ Settled code e p d
  pending : ∀ p ∈ e.pending, ∃ d, e.Reached p d
  attained : (e.peak : Int) ∈ code.depthsMet

theorem Settled.mono (h : Settled code e p d) (hpeak : e.peak ≤ f.peak)
    (hkeeps : ∀ p x, e.Reached p x → f.Reached p x) : Settled code f p d := by
  obtain ⟨i, hi, hpops, hd, hafter, hnext, hjump⟩ := h
  exact ⟨i, hi, hpops, hd.trans hpeak, hafter.trans hpeak, fun ht => hkeeps _ _ (hnext ht),
    fun l q hl hq => hkeeps _ _ (hjump l q hl hq)⟩

theorem mem_successors (hl : code.Located labels)
    (h : code.successors labels p i = .ok next) :
    q ∈ next ↔ (i.isTerminal = false ∧ q = p + 1) ∨
      ∃ l, i.target? = some l ∧ code[q]? = some (.label l) := by
  have hjump : q ∈ (i.target?.bind labels.find?).toList ↔
      ∃ l, i.target? = some l ∧ code[q]? = some (.label l) := by
    simp only [Option.mem_toList, Option.bind_eq_some_iff, hl _ _]
  unfold Code.successors at h
  split at h
  · rename_i ht
    cases h
    simp [ht, hjump]
  · rename_i ht
    split at h
    · cases h
    · cases h
      simp [ht, hjump]

theorem successors_inside (h : code.successors labels p i = .ok next)
    (ht : i.isTerminal = false) : p + 1 ≠ code.length := by
  intro hlast
  simp [Code.successors, ht, hlast] at h

theorem successors_error (h : code.successors labels p i = .error err) :
    err = .fallsOffEnd ∧ i.isTerminal = false ∧ p + 1 = code.length := by
  unfold Code.successors at h
  split at h
  · cases h
  · rename_i ht
    split at h
    · rename_i hlast
      cases h
      exact ⟨rfl, by simpa using ht, hlast⟩
    · cases h

/-- Successors are indices of the code that paths go on to. -/
theorem path_of_mem_successors (hl : code.Located labels) (hp : code.Path p d)
    (hi : code[p]? = some i) (hpops : i.effect.pops ≤ d)
    (h : code.successors labels p i = .ok next) (hq : q ∈ next) :
    code.Path q (i.after d) ∧ q < code.length := by
  rw [Instruction.cast_after hpops]
  rcases (mem_successors hl h).1 hq with ⟨ht, rfl⟩ | ⟨l, htarget, hq⟩
  · have hlt := (List.getElem?_eq_some_iff.1 hi).1
    have hlast := successors_inside h ht
    exact ⟨hp.next hi ht, by omega⟩
  · exact ⟨hp.jump hi htarget hq, (List.getElem?_eq_some_iff.1 hq).1⟩

/-- A visit goes on with the successors of an instruction that finds its operands. -/
theorem visit_eq (hi : code[p]? = some i) (hd : e.Reached p d) :
    visit code labels e p =
      if d < i.effect.pops then .error (.stackUnderflow p i)
      else code.successors labels p i >>= fun next =>
        next.foldlM (reach (i.after d)) { e with peak := max (max e.peak (i.after d)) d } := by
  simp only [visit, hi, hd.depth_eq]
  rfl

theorem Invariant.reached_of_pending (hinv : Invariant code e) {rest : List Nat}
    (hp : e.pending = p :: rest) : ∃ d i, e.Reached p d ∧ code[p]? = some i := by
  obtain ⟨d, hd⟩ := hinv.pending p (by simp [hp])
  exact ⟨d, _, hd, List.getElem?_eq_getElem (hinv.size ▸ hd.lt)⟩

theorem visit_ok (hl : code.Located labels) (hinv : Invariant code e) {rest : List Nat}
    (hp : e.pending = p :: rest)
    (h : visit code labels { e with pending := rest } p = .ok f) : Invariant code f := by
  obtain ⟨d, i, hd, hi⟩ := hinv.reached_of_pending hp
  rw [visit_eq (e := { e with pending := rest }) hi hd] at h
  split at h
  · cases h
  rename_i hpops
  rw [Nat.not_lt] at hpops
  cases hs : code.successors labels p i with
  | error err => rw [hs] at h; cases h
  | ok next =>
    rw [hs] at h
    have hnext := fun q => mem_successors (q := q) hl hs
    have hpath := fun q => path_of_mem_successors (q := q) hl (hinv.path p d hd) hi hpops hs
    have hgrown := foldlM_reach_ok h fun q hq => hinv.size ▸ (hpath q hq).2
    have hpeak : f.peak = max (max e.peak (i.after d)) d := hgrown.peak
    have hkeeps : ∀ q x, e.Reached q x → f.Reached q x := hgrown.keeps
    refine ⟨hgrown.size.trans hinv.size, hkeeps 0 0 hinv.start, ?_, ?_, ?_, ?_⟩
    · intro q x hq
      rcases hgrown.fresh q x hq with he | ⟨hmem, rfl, -⟩
      · exact hinv.path q x he
      · exact (hpath q hmem).1
    · intro q x hq
      rcases hgrown.fresh q x hq with he | ⟨-, -, hpending⟩
      · rcases hinv.settled q x he with hpending | hsettled
        · rcases List.mem_cons.1 (hp ▸ hpending) with rfl | hrest
          · obtain rfl := Reached.unique hd he
            exact Or.inr ⟨i, hi, hpops, by omega, by omega,
              fun ht => hgrown.reaches _ ((hnext _).2 (Or.inl ⟨ht, rfl⟩)),
              fun l q hl hq => hgrown.reaches q ((hnext q).2 (Or.inr ⟨l, hl, hq⟩))⟩
          · exact Or.inl (hgrown.keepsPending q hrest)
        · exact Or.inr (hsettled.mono (by omega) hkeeps)
      · exact Or.inl hpending
    · intro q hq
      rcases hgrown.pending q hq with hrest | hq
      · obtain ⟨x, hx⟩ := hinv.pending q (hp ▸ List.mem_cons_of_mem _ hrest)
        exact ⟨x, hkeeps q x hx⟩
      · exact ⟨_, hgrown.reaches q hq⟩
    · have hbefore : (d : Int) ∈ code.depthsMet := ⟨p, d, i, hinv.path p d hd, hi, Or.inl rfl⟩
      have hafter : (i.after d : Int) ∈ code.depthsMet :=
        ⟨p, d, i, hinv.path p d hd, hi, Or.inr (Instruction.cast_after hpops)⟩
      have hcases : f.peak = e.peak ∨ f.peak = i.after d ∨ f.peak = d := by omega
      rcases hcases with hm | hm | hm <;> rw [hm]
      · exact hinv.attained
      · exact hafter
      · exact hbefore

theorem visit_error (hl : code.Located labels) (hinv : Invariant code e) {rest : List Nat}
    (hp : e.pending = p :: rest)
    (h : visit code labels { e with pending := rest } p = .error err) : code.Shows err := by
  obtain ⟨d, i, hd, hi⟩ := hinv.reached_of_pending hp
  rw [visit_eq (e := { e with pending := rest }) hi hd] at h
  split at h
  · rename_i hpops
    cases h
    exact ⟨d, hinv.path p d hd, hi, hpops⟩
  rename_i hpops
  rw [Nat.not_lt] at hpops
  cases hs : code.successors labels p i with
  | error err' =>
    rw [hs] at h
    cases h
    obtain ⟨rfl, ht, hlast⟩ := successors_error hs
    obtain rfl : p = code.length - 1 := by omega
    exact ⟨d, i, hinv.path _ d hd, hi, ht⟩
  | ok next =>
    rw [hs] at h
    have hpath := fun q => path_of_mem_successors (q := q) hl (hinv.path p d hd) hi hpops hs
    obtain ⟨q, hq, x, hx, hne, rfl⟩ :=
      foldlM_reach_error h fun q hq => hinv.size ▸ (hpath q hq).2
    exact ⟨hinv.path q x hx, (hpath q hq).1, by omega⟩

/-- The walk ends with nothing pending, or with an error that paths bear out. -/
theorem run_ok (hl : code.Located labels) (hinv : Invariant code e)
    (h : run code labels e = .ok f) : Invariant code f ∧ f.pending = [] := by
  fun_induction run code labels e with
  | case1 e hp =>
    cases h
    exact ⟨hinv, hp⟩
  | case2 => cases h
  | case3 e p rest hp g hv ih => exact ih (visit_ok hl hinv hp hv) h

theorem run_error (hl : code.Located labels) (hinv : Invariant code e)
    (h : run code labels e = .error err) : code.Shows err := by
  fun_induction run code labels e with
  | case1 => cases h
  | case2 e p rest hp err' hv =>
    cases h
    exact visit_error hl hinv hp hv
  | case3 e p rest hp g hv ih => exact ih (visit_ok hl hinv hp hv) h

theorem invariant_start (hne : code ≠ []) : Invariant code (start code) := by
  have hlt : 0 < code.length := List.length_pos_iff.2 hne
  have hreached (p d : Nat) : (start code).Reached p d ↔ p = 0 ∧ d = 0 := by
    simp only [Reached, start, List.getElem?_set, List.length_replicate, hlt, if_true]
    by_cases hp : 0 = p
    · simp [← hp, eq_comm]
    · simp [hp, Ne.symm hp, List.getElem?_replicate]
  have hpending : (start code).pending = [0] := by simp [start, hne]
  refine ⟨by simp [start], (hreached 0 0).2 ⟨rfl, rfl⟩, ?_, ?_, ?_, ?_⟩
  · intro p d h
    obtain ⟨rfl, rfl⟩ := (hreached p d).1 h
    exact .start
  · intro p d h
    obtain ⟨rfl, rfl⟩ := (hreached p d).1 h
    exact Or.inl (by simp [hpending])
  · intro p h
    rw [hpending, List.mem_singleton] at h
    exact ⟨0, (hreached p 0).2 ⟨h, rfl⟩⟩
  · exact ⟨0, 0, _, .start, List.getElem?_eq_getElem hlt, Or.inl rfl⟩

/-- Once nothing is pending, every path leads where the walk has been. -/
theorem Invariant.reached_of_path (hinv : Invariant code f) (hp : f.pending = []) {d : Int}
    (h : code.Path p d) : ∃ n : Nat, d = n ∧ f.Reached p n := by
  have hsettled {p n : Nat} (hr : f.Reached p n) : Settled code f p n := by
    simpa [hp] using hinv.settled p n hr
  induction h with
  | start => exact ⟨0, rfl, hinv.start⟩
  | next h hi ht ih =>
    obtain ⟨n, rfl, hr⟩ := ih
    obtain ⟨j, hj, hpops, -, -, hnext, -⟩ := hsettled hr
    obtain rfl := Option.some.inj (hi.symm.trans hj)
    exact ⟨_, (Instruction.cast_after hpops).symm, hnext ht⟩
  | jump h hi hl hq ih =>
    obtain ⟨n, rfl, hr⟩ := ih
    obtain ⟨j, hj, hpops, -, -, -, hjump⟩ := hsettled hr
    obtain rfl := Option.some.inj (hi.symm.trans hj)
    exact ⟨_, (Instruction.cast_after hpops).symm, hjump _ _ hl hq⟩

theorem Invariant.consistent (hinv : Invariant code f) (hp : f.pending = [])
    (hplaced : code.placed.Nodup) (htargets : ∀ l ∈ code.targets, l ∈ code.placed) :
    code.Consistent where
  placedOnce := hplaced
  targetsPlaced := htargets
  noUnderflow p d i h hi := by
    obtain ⟨n, rfl, hr⟩ := hinv.reached_of_path hp h
    obtain ⟨j, hj, hpops, -⟩ := (hinv.settled p n hr).resolve_left (by simp [hp])
    obtain rfl := Option.some.inj (hi.symm.trans hj)
    exact_mod_cast hpops
  noFallOff p d i h hi ht := by
    obtain ⟨n, -, hr⟩ := hinv.reached_of_path hp (h.next hi ht)
    exact (hinv.size ▸ hr.lt).ne
  depthsAgree p d e h h' := by
    obtain ⟨n, rfl, hr⟩ := hinv.reached_of_path hp h
    obtain ⟨m, rfl, hr'⟩ := hinv.reached_of_path hp h'
    rw [hr.unique hr']

theorem Invariant.isGreatest (hinv : Invariant code f) (hp : f.pending = []) :
    IsGreatest code.depthsMet f.peak := by
  refine ⟨hinv.attained, ?_⟩
  rintro n ⟨p, d, i, hpath, hi, hn⟩
  obtain ⟨n, rfl, hr⟩ := hinv.reached_of_path hp hpath
  obtain ⟨j, hj, hpops, hd, hafter, -⟩ := (hinv.settled p n hr).resolve_left (by simp [hp])
  obtain rfl := Option.some.inj (hi.symm.trans hj)
  rcases hn with rfl | rfl
  · exact_mod_cast hd
  · rw [← Instruction.cast_after hpops]
    exact_mod_cast hafter

end Exploration

namespace Code

variable {code : Code} {s : StackSummary} {err : AnalysisError} {p d : Nat}

theorem simulate_eq_ok (h : code.simulate = .ok s) :
    ∃ labels f, code.checkLabels = .ok labels ∧
      (Exploration.start code).run code labels = .ok f ∧ s = ⟨f.peak, f.depths⟩ := by
  unfold simulate at h
  cases hl : code.checkLabels with
  | error e => rw [hl] at h; cases h
  | ok labels =>
    rw [hl] at h
    change (Exploration.run code labels _ >>= _) = _ at h
    cases hr : (Exploration.start code).run code labels with
    | error e => rw [hr] at h; cases h
    | ok f =>
      rw [hr] at h
      cases h
      exact ⟨labels, f, rfl, hr, rfl⟩

/-- Depths that a simulation reports come from a finished walk. -/
theorem invariant_of_simulate (hne : code ≠ []) (h : code.simulate = .ok s) :
    ∃ f : Exploration, Exploration.Invariant code f ∧ f.pending = [] ∧
      s = ⟨f.peak, f.depths⟩ := by
  obtain ⟨labels, f, hl, hr, rfl⟩ := simulate_eq_ok h
  obtain ⟨hinv, hp⟩ := Exploration.run_ok (located_of_checkLabels hl)
    (Exploration.invariant_start hne) hr
  exact ⟨f, hinv, hp, rfl⟩

theorem consistent_of_simulate (hne : code ≠ []) (h : code.simulate = .ok s) :
    code.Consistent := by
  obtain ⟨f, hinv, hp, -⟩ := invariant_of_simulate hne h
  obtain ⟨labels, -, hl, -⟩ := simulate_eq_ok h
  obtain ⟨hplaced, htargets⟩ := exists_checkLabels_iff.1 ⟨labels, hl⟩
  exact hinv.consistent hp hplaced htargets

theorem entryDepths_eq_some_iff (hne : code ≠ []) (h : code.simulate = .ok s) :
    s.entryDepths[p]? = some (some d) ↔ code.Path p d := by
  obtain ⟨f, hinv, hp, rfl⟩ := invariant_of_simulate hne h
  constructor
  · exact hinv.path p d
  · intro hpath
    obtain ⟨n, hn, hr⟩ := hinv.reached_of_path hp hpath
    obtain rfl : d = n := by exact_mod_cast hn
    exact hr

theorem length_entryDepths (hne : code ≠ []) (h : code.simulate = .ok s) :
    s.entryDepths.length = code.length := by
  obtain ⟨f, hinv, -, rfl⟩ := invariant_of_simulate hne h
  exact hinv.size

theorem isGreatest_maxStack (hne : code ≠ []) (h : code.simulate = .ok s) :
    IsGreatest code.depthsMet s.maxStack := by
  obtain ⟨f, hinv, hp, rfl⟩ := invariant_of_simulate hne h
  exact hinv.isGreatest hp

theorem simulate_eq_error (hne : code ≠ []) (h : code.simulate = .error err) :
    code.checkLabels = .error err ∨ code.Shows err := by
  unfold simulate at h
  cases hl : code.checkLabels with
  | error e => rw [hl] at h; cases h; exact Or.inl rfl
  | ok labels =>
    rw [hl] at h
    change (Exploration.run code labels _ >>= _) = _ at h
    cases hr : (Exploration.start code).run code labels with
    | error e =>
      rw [hr] at h
      cases h
      exact Or.inr (Exploration.run_error (located_of_checkLabels hl)
        (Exploration.invariant_start hne) hr)
    | ok f => rw [hr] at h; cases h

theorem exists_simulate_iff (hne : code ≠ []) :
    (∃ s, code.simulate = .ok s) ↔ code.Consistent := by
  constructor
  · rintro ⟨s, h⟩
    exact consistent_of_simulate hne h
  · intro hc
    cases h : code.simulate with
    | ok s => exact ⟨s, rfl⟩
    | error err =>
      rcases simulate_eq_error hne h with hl | hshows
      · obtain ⟨labels, hok⟩ := exists_checkLabels_iff.2 ⟨hc.placedOnce, hc.targetsPlaced⟩
        rw [hok] at hl
        cases hl
      · exact (hc.not_shows hshows).elim

/-- The walk visits every index once, but it speaks of all paths, loops included: it succeeds when
labels and depths fit together on all of them, its depths are theirs, and its errors lie on them. -/
theorem simulate_agrees_with_paths (hne : code ≠ []) :
    ((∃ s, code.simulate = .ok s) ↔ code.Consistent) ∧
    (∀ s, code.simulate = .ok s →
      s.entryDepths.length = code.length ∧
      (∀ p d : Nat, s.entryDepths[p]? = some (some d) ↔ code.Path p d) ∧
      IsGreatest code.depthsMet s.maxStack) ∧
    (∀ p i, code.simulate = .error (.stackUnderflow p i) →
      ∃ d : Nat, code.Path p d ∧ code[p]? = some i ∧ d < i.effect.pops) ∧
    (code.simulate = .error .fallsOffEnd →
      ∃ (d : Nat) (i : Instruction), code.Path (code.length - 1) d ∧
        code[code.length - 1]? = some i ∧ i.isTerminal = false) ∧
    (∀ p expected found, code.simulate = .error (.inconsistentDepth p expected found) →
      code.Path p expected ∧ code.Path p found ∧ expected ≠ found) := by
  have hshows {err : AnalysisError} (h : code.simulate = .error err)
      (hl : ∀ l, err ≠ .duplicateLabel l ∧ err ≠ .undefinedLabel l) : code.Shows err := by
    refine (simulate_eq_error hne h).resolve_left fun hlabels => ?_
    obtain ⟨l, rfl | rfl⟩ := checkLabels_eq_error hlabels
    · exact (hl l).1 rfl
    · exact (hl l).2 rfl
  refine ⟨exists_simulate_iff hne, ?_, ?_, ?_, ?_⟩
  · intro s h
    exact ⟨length_entryDepths hne h, fun p d => entryDepths_eq_some_iff hne h,
      isGreatest_maxStack hne h⟩
  · intro p i h
    exact hshows h (by simp)
  · intro h
    exact hshows h (by simp)
  · intro p expected found h
    obtain ⟨hd, he, hdne⟩ := hshows h (by simp)
    exact ⟨hd, he, by omega⟩

/-- A loop has infinitely many paths, and one depth at each of its instructions. -/
theorem loop_depths :
    let loop : Code := [.pushConstant (.int 0), .label ⟨7⟩, .dup, .branch .ifNonZero ⟨7⟩,
      .ret (some .int)]
    loop ≠ [] ∧ (∀ p d : Nat, [some 0, some 1, some 1, some 2, some 1][p]? = some (some d) ↔
      loop.Path p d) ∧ IsGreatest loop.depthsMet 2 := by
  intro loop
  have hne : loop ≠ [] := by decide
  have hsim : loop.simulate = .ok ⟨2, [some 0, some 1, some 1, some 2, some 1]⟩ := by decide +kernel
  obtain ⟨-, hdepths, hpeak⟩ := (simulate_agrees_with_paths hne).2.1 _ hsim
  exact ⟨hne, hdepths, hpeak⟩

end Code

end CodeWeaving
