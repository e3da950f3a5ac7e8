import CodeWeaving.Proofs.Stream.Refinement
import CodeWeaving.Proofs.Weaving.Layout

/-! A plan carried out is one splice of the code, in whatever order its edits stand. -/
namespace CodeWeaving

namespace CodeStream

variable {s : CodeStream} {a : Anchor} {i : Instruction} {e : AnchorError}

theorem get_eq_ok_iff : s.get a = .ok i ↔ s.Names a i := by
  constructor
  · intro h
    obtain ⟨k, hcheck, -⟩ := map_eq_ok.1 h
    obtain ⟨j, hj⟩ := names_of_check hcheck
    cases (get_of_names hj).symm.trans h
    exact hj
  · exact get_of_names

theorem position_eq_error_iff : s.position a = .error e ↔ s.get a = .error e := by
  rw [position, get, map_eq_error, map_eq_error]

end CodeStream

namespace Edit

variable {e : Edit} {a : Anchor} {i : Instruction} {n : Nat}

/-- Code that an edit puts before an instruction. -/
def codeBefore (a : Anchor) : Edit → Code
  | .insertBefore b code => if b = a then code else []
  | _ => []

/-- Code that an edit puts in an instruction's stead. -/
def codeInstead (a : Anchor) : Edit → Code
  | .replace b code => if b = a then code else []
  | _ => []

/-- Code that an edit puts after an instruction. -/
def codeAfter (a : Anchor) : Edit → Code
  | .insertAfter b code => if b = a then code else []
  | _ => []

def replaces (a : Anchor) : Edit → Bool
  | .replace b _ => b = a
  | _ => false

theorem codeBefore_of_ne (h : e.anchor ≠ a) : e.codeBefore a = [] := by
  cases e <;> simp_all [codeBefore, anchor]

theorem codeInstead_of_ne (h : e.anchor ≠ a) : e.codeInstead a = [] := by
  cases e <;> simp_all [codeInstead, anchor]

theorem codeAfter_of_ne (h : e.anchor ≠ a) : e.codeAfter a = [] := by
  cases e <;> simp_all [codeAfter, anchor]

/-- Of the old numbers the edited instruction's own is left, unless the edit replaces it. -/
theorem filter_expand {limit : Nat} (hold : e.anchor.index < limit) (hfresh : limit ≤ n) :
    (e.expand n i).filter (fun x => x.1 < limit) =
      if e.replaces e.anchor then [] else [(e.anchor.index, i)] := by
  have hnew (code : Code) : (code.numbered n).filter (fun x => x.1 < limit) = [] :=
    List.filter_eq_nil_iff.2 fun x hx => by
      have := Code.le_of_mem_numbered hx
      simpa using this.trans' hfresh
  cases e with
  | insertBefore a code => simp [expand, replaces, anchor, hnew, show a.index < limit from hold]
  | insertAfter a code => simp [expand, replaces, anchor, hnew, show a.index < limit from hold]
  | replace a code => simp [expand, replaces, anchor, hnew]

theorem replaces_of_ne (h : e.anchor ≠ a) : e.replaces a = false := by
  cases e <;> simp_all [replaces, anchor]

end Edit

namespace Plan

/-- What an instruction comes to among edits. -/
def spliced (es : List Edit) (site : Anchor × Instruction) : Code :=
  es.flatMap (Edit.codeBefore site.1) ++
    (if es.any (Edit.replaces site.1) then [] else [site.2]) ++
    es.flatMap (Edit.codeInstead site.1) ++ es.flatMap (Edit.codeAfter site.1)

variable {es fs : List Edit} {e : Edit} {a : Anchor} {i : Instruction} {n : Nat}
  {site : Anchor × Instruction} {first : Nat → Nat} {limit : Nat} {s t : CodeStream}

theorem spliced_cons_of_ne (h : e.anchor ≠ site.1) : spliced (e :: es) site = spliced es site := by
  simp [spliced, Edit.codeBefore_of_ne h, Edit.codeInstead_of_ne h, Edit.codeAfter_of_ne h,
    Edit.replaces_of_ne h]

theorem any_replaces_of_none (h : ∀ e ∈ es, e.anchor ≠ a) : es.any (Edit.replaces a) = false :=
  List.any_eq_false.2 fun e he => by simp [Edit.replaces_of_ne (h e he)]

/-- Edits for other instructions have no part in what an instruction comes to. -/
theorem spliced_append (h : ∀ f ∈ fs, f.anchor ≠ site.1) :
    spliced (es ++ fs) site = spliced es site := by
  have hbefore : fs.flatMap (Edit.codeBefore site.1) = [] :=
    List.flatMap_eq_nil_iff.2 fun f hf => Edit.codeBefore_of_ne (h f hf)
  have hinstead : fs.flatMap (Edit.codeInstead site.1) = [] :=
    List.flatMap_eq_nil_iff.2 fun f hf => Edit.codeInstead_of_ne (h f hf)
  have hafter : fs.flatMap (Edit.codeAfter site.1) = [] :=
    List.flatMap_eq_nil_iff.2 fun f hf => Edit.codeAfter_of_ne (h f hf)
  have hkept := any_replaces_of_none h
  simp [spliced, hbefore, hinstead, hafter, hkept]

theorem spliced_of_none (h : ∀ e ∈ es, e.anchor ≠ site.1) : spliced es site = [site.2] := by
  change spliced ([] ++ es) site = spliced [] site
  exact spliced_append h

/-- Where one edit is for an instruction, the instruction comes to what the edit makes of it. -/
theorem spliced_of_mem (he : e ∈ es) (hanchors : (es.map Edit.anchor).Nodup) :
    spliced es (e.anchor, i) = (e.expand n i).map Prod.snd := by
  induction es with
  | nil => cases he
  | cons f es ih =>
    rw [List.map_cons, List.nodup_cons] at hanchors
    rcases List.mem_cons.1 he with rfl | he
    · have hrest : ∀ g ∈ es, g.anchor ≠ e.anchor := fun g hg heq =>
        hanchors.1 (heq ▸ List.mem_map_of_mem hg)
      rw [← List.singleton_append, spliced_append hrest]
      cases e <;> simp [spliced, Edit.anchor, Edit.codeBefore, Edit.codeInstead, Edit.codeAfter,
        Edit.replaces, Edit.expand, Code.map_snd_numbered]
    · have hne : f.anchor ≠ e.anchor := fun heq => hanchors.1 (heq ▸ List.mem_map_of_mem he)
      rw [spliced_cons_of_ne hne, ih he hanchors.2]

/-- What an instruction comes to does not depend on the order of the edits. -/
theorem spliced_perm (h : es.Perm fs) (hanchors : (es.map Edit.anchor).Nodup) :
    spliced es site = spliced fs site := by
  by_cases hsite : ∃ e ∈ es, e.anchor = site.1
  · obtain ⟨e, he, hanchor⟩ := hsite
    obtain ⟨a, i⟩ := site
    obtain rfl : e.anchor = a := hanchor
    rw [spliced_of_mem (n := 0) he hanchors, spliced_of_mem (h.mem_iff.1 he)
      ((h.map Edit.anchor).nodup_iff.1 hanchors)]
  · have hnone : ∀ e ∈ es, e.anchor ≠ site.1 := fun e he heq => hsite ⟨e, he, heq⟩
    rw [spliced_of_none hnone, spliced_of_none fun e he => hnone e (h.mem_iff.2 he)]

theorem peak_perm (h : es.Perm fs) : peak es = peak fs :=
  h.foldl_eq' (fun e _ f _ n => by omega) 0

/-- No edit but the one for an instruction replaces it. -/
theorem any_replaces_of_mem (he : e ∈ es) (hanchors : (es.map Edit.anchor).Nodup) :
    es.any (Edit.replaces e.anchor) = e.replaces e.anchor := by
  induction es with
  | nil => cases he
  | cons f es ih =>
    rw [List.map_cons, List.nodup_cons] at hanchors
    rw [List.any_cons]
    rcases List.mem_cons.1 he with rfl | he
    · have hrest : ∀ g ∈ es, g.anchor ≠ e.anchor := fun g hg heq =>
        hanchors.1 (heq ▸ List.mem_map_of_mem hg)
      rw [any_replaces_of_none hrest, Bool.or_false]
    · have hne : f.anchor ≠ e.anchor := fun heq => hanchors.1 (heq ▸ List.mem_map_of_mem he)
      rw [Edit.replaces_of_ne hne, Bool.false_or, ih he hanchors.2]

theorem flatMap_unless {α : Type} (p : α → Bool) (xs : List α) :
    xs.flatMap (fun x => if p x then [] else [x]) = xs.filter fun x => !p x := by
  induction xs with
  | nil => rfl
  | cons x xs ih => cases h : p x <;> simp [h, ih]

section Blocks

variable (hstreams : ∀ e ∈ es, e.anchor.stream = s.id)
  (hindex : (es.map fun e => e.anchor.index).Nodup) (hanchors : (es.map Edit.anchor).Nodup)
  (entry : Nat × Instruction)

include hstreams hindex hanchors

/-- An instruction's block is its splice, numbered. -/
theorem map_snd_block : (block es first entry).map Prod.snd = spliced es (s.tag entry) := by
  by_cases hsite : ∃ e ∈ es, e.anchor.index = entry.1
  · obtain ⟨e, he, heq⟩ := hsite
    obtain ⟨n, i⟩ := entry
    obtain rfl : e.anchor.index = n := heq
    rw [block_of_mem he hindex, CodeStream.tag_eq (hstreams e he), spliced_of_mem he hanchors]
  · have hne : ∀ e ∈ es, e.anchor.index ≠ entry.1 := fun e he heq => hsite ⟨e, he, heq⟩
    rw [block_of_none hne, spliced_of_none fun e he heq => hne e he (congrArg Anchor.index heq)]
    rfl

/-- Of the old numbers an instruction's block has its own, unless the instruction is replaced. -/
theorem filter_block (hold : entry.1 < limit) (hfirst : limit ≤ first entry.1) :
    (block es first entry).filter (fun x => x.1 < limit) =
      if es.any (Edit.replaces (s.tag entry).1) then [] else [entry] := by
  by_cases hsite : ∃ e ∈ es, e.anchor.index = entry.1
  · obtain ⟨e, he, heq⟩ := hsite
    obtain ⟨n, i⟩ := entry
    obtain rfl : e.anchor.index = n := heq
    rw [block_of_mem he hindex, CodeStream.tag_eq (hstreams e he), any_replaces_of_mem he hanchors]
    exact Edit.filter_expand hold hfirst
  · have hne : ∀ e ∈ es, e.anchor.index ≠ entry.1 := fun e he heq => hsite ⟨e, he, heq⟩
    have hkept : es.any (Edit.replaces (s.tag entry).1) = false :=
      any_replaces_of_none fun e he heq => hne e he (congrArg Anchor.index heq)
    simp [block_of_none hne, hkept, hold]

end Blocks

variable {d : Draft} {slots : SlotAllocator} {as bs : List Edit} {x : AnchorError}

namespace Apart

theorem of_get (hlive : ∀ e ∈ es, ∃ i, s.get e.anchor = .ok i)
    (hanchors : (es.map Edit.anchor).Nodup) : Apart s es :=
  ⟨fun e he => (hlive e he).imp fun _ hi => CodeStream.get_eq_ok_iff.1 hi, hanchors⟩

/-- The edits all succeed. The code after them is the code before with all of them spliced in, and
what they do not replace is still there under its anchors, once and in order. -/
theorem exists_spliced (h : Apart s es) : ∃ t, es.foldlM Edit.apply s = .ok t ∧
    t.instructions = s.anchored.flatMap (spliced es) ∧
    t.anchored.filter (fun x => x.1.index < s.fresh) =
      s.anchored.filter fun x => !es.any (Edit.replaces x.1) := by
  obtain ⟨t, ht, hchain⟩ := h.exists_chain
  have hindex := hchain.nodup_index h.anchors
  obtain ⟨first, hfirst, hentries⟩ := hchain.exists_entries_eq (Nat.le_refl _) hindex
  refine ⟨t, ht, ?_, ?_⟩
  · rw [CodeStream.instructions, hentries, List.map_flatMap, CodeStream.anchored_eq rfl,
      List.flatMap_map]
    exact List.flatMap_congr fun x _ => map_snd_block hchain.stream_eq hindex h.anchors x
  · have hblocks : t.entries.filter (fun x => x.1 < s.fresh) =
        s.entries.filter fun x => !es.any (Edit.replaces (s.tag x).1) := by
      rw [hentries, List.filter_flatMap, List.flatMap_congr fun x hx =>
        filter_block hchain.stream_eq hindex h.anchors x (s.below x hx) (hfirst x.1)]
      exact flatMap_unless (fun x => es.any (Edit.replaces (s.tag x).1)) _
    rw [CodeStream.anchored_eq hchain.id_eq, CodeStream.anchored_eq rfl, List.filter_map,
      List.filter_map]
    exact congrArg _ hblocks

end Apart

/-- The first anchor that names nothing ends it before anything is done. -/
theorem failed_apply_of_get (has : ∀ f ∈ as, ∃ i, d.stream.get f.anchor = .ok i)
    (hx : d.stream.get e.anchor = .error x) :
    (Plan.edits (as ++ e :: bs) slots).apply.Failed d (anchorFault x) d := by
  refine InPlace.failed_bind.2 (.inl ?_)
  induction as with
  | nil =>
    refine InPlace.failed_bind.2 (.inl (InPlace.failed_require.2 ⟨?_, rfl⟩))
    rw [CodeStream.position_eq_error_iff.2 hx]
    rfl
  | cons f as ih =>
    obtain ⟨i, hi⟩ := has f List.mem_cons_self
    obtain ⟨p, hp⟩ := (CodeStream.get_eq_ok_iff.1 hi).position
    refine InPlace.failed_bind.2 (.inr ⟨⟨⟩, d, InPlace.done_require.2 ⟨⟨p, ?_⟩, rfl⟩,
      ih fun g hg => has g (List.mem_cons_of_mem _ hg)⟩)
    rw [hp]
    rfl

/-- Live anchors, each of another instruction: the bound on the stack grows by the peak of the new
code, unless it would be too great. -/
theorem Apart.done_or_overflow (h : Apart d.stream es) (slots : SlotAllocator)
    (ht : es.foldlM Edit.apply d.stream = .ok t) :
    (∃ maxStack, boundOf? (d.method.maxStack.toNat + peak es) = some maxStack ∧
      (Plan.edits es slots).apply.Done d es.length
        ((d.withStream t).withBounds maxStack (max d.method.maxLocals slots.maxLocals))) ∨
    boundOf? (d.method.maxStack.toNat + peak es) = none ∧
      (Plan.edits es slots).apply.Failed d
        (.invariant (.model (.maxStackOverflow (d.method.maxStack.toNat + peak es))))
        (d.withStream t) := by
  cases hbound : boundOf? (d.method.maxStack.toNat + peak es) with
  | some maxStack =>
    refine .inl ⟨maxStack, rfl, (h.done_apply ht).2 ⟨rfl, ?_⟩⟩
    simp only [raise, Draft.withStream, hbound]
    rfl
  | none =>
    refine .inr ⟨rfl, (h.failed_apply ht).2 ⟨?_, rfl⟩⟩
    simp only [raise, Draft.withStream, hbound]

theorem Apart.method_left (h : Apart d.stream es) (slots : SlotAllocator)
    (ht : es.foldlM Edit.apply d.stream = .ok t) :
    ((Plan.edits es slots).apply.left d).method =
      match boundOf? (d.method.maxStack.toNat + peak es) with
      | some maxStack => { d.method with
          code := t.instructions, maxStack, maxLocals := max d.method.maxLocals slots.maxLocals }
      | none => { d.method with code := t.instructions } := by
  rcases h.done_or_overflow slots ht with ⟨maxStack, hbound, hdone⟩ | ⟨hbound, hfailed⟩
  · rw [hbound, hdone.2]
    rfl
  · rw [hbound, hfailed.2]
    rfl

theorem Apart.result_eq (h : Apart d.stream es) : (Plan.edits es slots).apply.result d =
    if d.method.maxStack.toNat + peak es < 2 ^ 16 then .ok es.length
    else .error (.invariant (.model (.maxStackOverflow (d.method.maxStack.toNat + peak es)))) := by
  obtain ⟨t, ht, -⟩ := h.exists_chain
  rcases h.done_or_overflow slots ht with ⟨maxStack, hbound, hdone⟩ | ⟨hbound, hfailed⟩
  · rw [if_pos (boundOf?_eq_some hbound ▸ maxStack.toNat_lt), hdone.1]
  · have hlarge : ¬ d.method.maxStack.toNat + peak es < 2 ^ 16 := fun hlt => by
      simp [boundOf?, show _ < 65536 from hlt] at hbound
    rw [if_neg hlarge, hfailed.1]

/-- Anchors that name nothing are noticed before the first edit. With anchors that each name another
instruction, as those of all planned edits do, every edit is made: each instruction has come to what
the edits splice in there, the order of the edits does not matter, and only the bound on the stack
may turn out too great. -/
theorem apply_splices (d : Draft) (es : List Edit) (slots : SlotAllocator) :
    (∀ as e bs x, es = as ++ e :: bs → (∀ f ∈ as, ∃ i, d.stream.get f.anchor = .ok i) →
      d.stream.get e.anchor = .error x →
      (Plan.edits es slots).apply.Failed d (anchorFault x) d) ∧
    ((∀ e ∈ es, ∃ i, d.stream.get e.anchor = .ok i) → (es.map Edit.anchor).Nodup →
      ∃ u, (Plan.edits es slots).apply.left d = u ∧
        u.method.code = d.stream.anchored.flatMap (spliced es) ∧
        u.stream.anchored.filter (fun x => x.1.index < d.stream.fresh) =
          d.stream.anchored.filter (fun x => !es.any (Edit.replaces x.1)) ∧
        d.method.maxLocals ≤ u.method.maxLocals ∧
        (Plan.edits es slots).apply.result d =
          (if d.method.maxStack.toNat + peak es < 2 ^ 16 then .ok es.length
          else .error (.invariant
            (.model (.maxStackOverflow (d.method.maxStack.toNat + peak es))))) ∧
        ∀ fs, es.Perm fs → ((Plan.edits fs slots).apply.left d).method = u.method ∧
          (Plan.edits fs slots).apply.result d = (Plan.edits es slots).apply.result d) ∧
    ∀ cx, (Weaver.plan cx d).result = .ok (.edits es slots) →
      (∀ e ∈ es, ∃ i, d.stream.get e.anchor = .ok i) ∧ (es.map Edit.anchor).Nodup := by
  refine ⟨?_, fun hlive hanchors => ?_, fun cx hplan => ?_⟩
  · rintro as e bs x rfl has hx
    exact failed_apply_of_get has hx
  · have hapart : Apart d.stream es := .of_get hlive hanchors
    obtain ⟨t, ht, hcode, hkept⟩ := hapart.exists_spliced
    have hmethod := hapart.method_left slots ht
    refine ⟨_, rfl, ?_, hapart.stream_left ht ▸ hkept, ?_, hapart.result_eq, fun fs hfs => ?_⟩
    · rw [hmethod, ← hcode]
      split <;> rfl
    · rw [hmethod]
      split
      · rw [UInt16.le_iff_toNat_le, UInt16.toNat_max]
        exact le_max_left _ _
      · exact UInt16.le_refl _
    · have hapart' : Apart d.stream fs :=
        ⟨fun e he => hapart.names e (hfs.mem_iff.2 he), (hfs.map Edit.anchor).nodup_iff.1 hanchors⟩
      obtain ⟨t', ht', hcode', -⟩ := hapart'.exists_spliced
      have hsame : t'.instructions = t.instructions := by
        rw [hcode, hcode']
        exact List.flatMap_congr fun site _ => (spliced_perm hfs hanchors).symm
      rw [hapart'.method_left slots ht', hmethod, hapart'.result_eq, hapart.result_eq,
        peak_perm hfs, hsame, hfs.length_eq]
      exact ⟨rfl, rfl⟩
  · have haction : cx.directive.action ≠ .overwrite := fun haction => by
      rw [Weaver.plan, haction] at hplan
      cases (Overwrite.plan_eq_ok hplan).2
    obtain ⟨_, _, heq, hapart⟩ := Weaver.apart_of_plan haction hplan
    cases heq
    exact ⟨fun e he => (hapart.names e he).imp fun _ hi => CodeStream.get_eq_ok_iff.2 hi,
      hapart.anchors⟩

/-- Code that meets in one gap, and a literal replaced. -/
def guardEdits : List Edit :=
  [.replace ⟨0, 2⟩ [.pushConstant (.int 8)], .insertAfter ⟨0, 0⟩ [.storeLocal 0 .int],
    .insertBefore ⟨0, 1⟩ [.loadLocal 0 .int]]

theorem guardedMethod_spliced :
    (Plan.edits guardEdits ⟨1⟩).apply.result (Draft.ofMethod Weaver.guardedMethod) = .ok 3 ∧
    ((Plan.edits guardEdits ⟨1⟩).apply.left (Draft.ofMethod Weaver.guardedMethod)).method.code =
      [.loadLocal 0 .int, .storeLocal 0 .int, .loadLocal 0 .int, .branch .ifZero ⟨3⟩,
        .pushConstant (.int 8), .ret (some .int), .label ⟨3⟩, .pushConstant (.int 0),
        .ret (some .int)] ∧
    (Plan.edits (guardEdits ++ [.insertAfter ⟨1, 0⟩ []]) ⟨1⟩).apply.Failed
      (Draft.ofMethod Weaver.guardedMethod) (anchorFault (.foreign ⟨1, 0⟩))
      (Draft.ofMethod Weaver.guardedMethod) ∧
    ∃ es slots, (Weaver.plan Weaver.guardContext (Draft.ofMethod Weaver.guardedMethod)).result =
      .ok (.edits es slots) ∧ (es.map Edit.anchor).Nodup := by
  have hlive : ∀ e ∈ guardEdits,
      ∃ i, (Draft.ofMethod Weaver.guardedMethod).stream.get e.anchor = .ok i := by
    simp only [guardEdits, List.forall_mem_cons]
    exact ⟨⟨_, rfl⟩, ⟨_, rfl⟩, ⟨_, rfl⟩, by simp⟩
  obtain ⟨-, hspliced, -⟩ := apply_splices (Draft.ofMethod Weaver.guardedMethod) guardEdits ⟨1⟩
  obtain ⟨u, rfl, hcode, -, -, hresult, -⟩ := hspliced hlive (by decide)
  obtain ⟨hfaults, -⟩ := apply_splices (Draft.ofMethod Weaver.guardedMethod)
    (guardEdits ++ [.insertAfter ⟨1, 0⟩ []]) ⟨1⟩
  refine ⟨hresult, hcode, hfaults _ _ _ _ rfl hlive rfl, ?_⟩
  have hok : (Weaver.plan Weaver.guardContext (Draft.ofMethod Weaver.guardedMethod)).result.isOk =
      true := by decide +kernel
  cases hplan : (Weaver.plan Weaver.guardContext (Draft.ofMethod Weaver.guardedMethod)).result with
  | error e =>
    rw [hplan] at hok
    cases hok
  | ok p =>
    obtain ⟨es, slots, rfl, -⟩ := Weaver.apart_of_plan (by decide) hplan
    exact ⟨es, slots, rfl, ((apply_splices _ es slots).2.2 _ hplan).2⟩

end Plan

end CodeWeaving
