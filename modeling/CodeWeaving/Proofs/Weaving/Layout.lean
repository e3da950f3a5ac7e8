import CodeWeaving.Proofs.Weaving.FreshSlots
import CodeWeaving.Proofs.Weaving.StackSafety

/-! Where everything stands in woven code: each instruction in its old place among the others, with
the new code of its edit around it or in its stead. -/
namespace CodeWeaving

open Code

/-- The code from a place in the stream on. -/
theorem Draft.drop_eq {d : Draft} {before middle after : List (Nat × Instruction)}
    (h : d.stream.entries = before ++ middle ++ after) :
    d.method.code.drop before.length = middle.map Prod.snd ++ after.map Prod.snd := by
  rw [← d.agrees, CodeStream.instructions, h, List.append_assoc, List.map_append,
    List.drop_left' (List.length_map _), List.map_append]

theorem Edit.anchor_insert (placement : Placement) (a : Anchor) (code : Code) :
    (Edit.insert placement a code).anchor = a := by
  cases placement <;> rfl

namespace Plan

variable {es : List Edit} {e : Edit} {first : Nat → Nat} {start limit : Nat} {a b code : Code}
  {i : Instruction} {entry : Nat × Instruction}

/-- What an entry of the stream comes to: itself, if no edit is for it. -/
def block (es : List Edit) (first : Nat → Nat) (entry : Nat × Instruction) :
    List (Nat × Instruction) :=
  match es.find? fun e => e.anchor.index = entry.1 with
  | some e => e.expand (first entry.1) entry.2
  | none => [entry]

/-- What code comes to, its instructions numbered from a number on. -/
def layout (es : List Edit) (first : Nat → Nat) (start : Nat) (code : Code) :
    List (Nat × Instruction) :=
  (code.numbered start).flatMap (block es first)

theorem block_of_none (h : ∀ e ∈ es, e.anchor.index ≠ entry.1) :
    block es first entry = [entry] := by
  have hnone : es.find? (fun e => e.anchor.index = entry.1) = none :=
    List.find?_eq_none.2 fun e he => by simpa using h e he
  rw [block, hnone]

theorem block_congr {first' : Nat → Nat} (h : first' entry.1 = first entry.1) :
    block es first' entry = block es first entry := by
  rw [block, h, block]

theorem block_cons_of_ne (h : entry.1 ≠ e.anchor.index) :
    block (e :: es) first entry = block es first entry := by
  rw [block, List.find?_cons_of_neg (by simpa using h.symm), block]

theorem block_of_mem (he : e ∈ es) (hanchors : (es.map fun e => e.anchor.index).Nodup) :
    block es first (e.anchor.index, i) = e.expand (first e.anchor.index) i := by
  have hfind : es.find? (fun f => f.anchor.index = e.anchor.index) = some e := by
    induction es with
    | nil => cases he
    | cons f es ih =>
      rw [List.map_cons, List.nodup_cons] at hanchors
      rcases List.mem_cons.1 he with rfl | he
      · simp
      · have hne : f.anchor.index ≠ e.anchor.index := fun heq =>
          hanchors.1 (heq ▸ List.mem_map_of_mem he)
        rw [List.find?_cons_of_neg (by simpa using hne), ih he hanchors.2]
  rw [block, hfind]

theorem layout_append : layout es first start (a ++ b) =
    layout es first start a ++ layout es first (start + a.length) b := by
  rw [layout, numbered_append, List.flatMap_append]
  rfl

theorem layout_cons : layout es first start (i :: code) =
    block es first (start, i) ++ layout es first (start + 1) code := rfl

/-- What code comes to: what is before an instruction, the instruction's block, and the rest. -/
theorem layout_split {p : Nat} (hi : code[p]? = some i) : layout es first 0 code =
    layout es first 0 (code.take p) ++
      (block es first (p, i) ++ layout es first (p + 1) (code.drop (p + 1))) := by
  obtain ⟨hlt, hget⟩ := List.getElem?_eq_some_iff.1 hi
  have hsplit : code = code.take p ++ i :: code.drop (p + 1) := by
    rw [← hget, List.getElem_cons_drop, List.take_append_drop]
  have hlen : (code.take p).length = p := by
    rw [List.length_take]
    omega
  conv_lhs => rw [hsplit]
  rw [layout_append, layout_cons, Nat.zero_add, hlen]

/-- Of the old numbers an entry has none but its own in its block. -/
theorem eq_of_mem_block {x : Nat × Instruction} (h : x ∈ block es first entry)
    (hx : x.1 < first entry.1) : x = entry := by
  unfold block at h
  split at h
  · rename_i e hfind
    have hindex : e.anchor.index = entry.1 := by simpa using List.find?_some hfind
    obtain ⟨hnumber, hinstruction⟩ := Edit.lt_of_mem_expand h hx
    exact Prod.ext (hnumber.trans hindex) hinstruction
  · exact List.mem_singleton.1 h

theorem mem_of_mem_layout {x : Nat × Instruction} (hfirst : ∀ k, limit ≤ first k)
    (h : x ∈ layout es first start code) (hx : x.1 < limit) :
    ∃ p, code[p]? = some x.2 ∧ start + p = x.1 := by
  obtain ⟨entry, hentry, hmem⟩ := List.mem_flatMap.1 h
  rw [eq_of_mem_block hmem (hx.trans_le (hfirst _))]
  exact mem_numbered.1 hentry

/-- Old instructions before a stretch of woven code all stood before a place, those after it
behind. -/
structure StandsAt (entries : List (Nat × Instruction)) (limit place : Nat)
    (before middle after : List (Nat × Instruction)) : Prop where
  entries : entries = before ++ middle ++ after
  before : ∀ x ∈ before, x.1 < limit → x.1 < place
  after : ∀ x ∈ after, x.1 < limit → place < x.1

/-- An instruction of which nothing is left in its place is gone. -/
theorem StandsAt.ne {entries before middle after : List (Nat × Instruction)} {place : Nat}
    (h : StandsAt entries limit place before middle after) (hplace : place < limit)
    (hmiddle : ∀ x ∈ middle, limit ≤ x.1) : ∀ x ∈ entries, x.1 ≠ place := by
  intro x hx heq
  subst heq
  rw [h.entries, List.append_assoc] at hx
  rcases List.mem_append.1 hx with hx | hx
  · exact Nat.lt_irrefl _ (h.before x hx hplace)
  · rcases List.mem_append.1 hx with hx | hx
    · exact Nat.lt_irrefl _ (hplace.trans_le (hmiddle x hx))
    · exact Nat.lt_irrefl _ (h.after x hx hplace)

/-- What an edit has made of an instruction stands where the instruction stood. -/
theorem exists_standsAt (he : e ∈ es) (hindex : (es.map fun e => e.anchor.index).Nodup)
    (hi : code[e.anchor.index]? = some i) (hfirst : ∀ k, code.length ≤ first k) :
    ∃ before after, StandsAt (layout es first 0 code) code.length e.anchor.index before
      (e.expand (first e.anchor.index) i) after := by
  refine ⟨layout es first 0 (code.take e.anchor.index),
    layout es first (e.anchor.index + 1) (code.drop (e.anchor.index + 1)), ?_, ?_, ?_⟩
  · rw [layout_split hi, block_of_mem he hindex, List.append_assoc]
  · intro x hx hold
    obtain ⟨p, hp, hnumber⟩ := mem_of_mem_layout hfirst hx hold
    have := (List.getElem?_eq_some_iff.1 hp).1
    rw [List.length_take] at this
    omega
  · intro x hx hold
    obtain ⟨p, hp, hnumber⟩ := mem_of_mem_layout hfirst hx hold
    omega

end Plan

theorem Method.parameterLength_congr {m k : Method} (hsignature : m.signature = k.signature)
    (hflags : m.flags = k.flags) : m.parameterLength = k.parameterLength := by
  rw [parameterLength, parameterLength, isStatic, isStatic, hsignature, hflags]

namespace EditChain

variable {limit : Nat} {es : List Edit} {s t : CodeStream}

/-- Edits of a stream, each entry's block numbered from a number of its own. -/
theorem exists_entries_eq (h : EditChain limit es s t) (hlimit : limit ≤ s.fresh)
    (hindex : (es.map fun e => e.anchor.index).Nodup) :
    ∃ first : Nat → Nat, (∀ n, limit ≤ first n) ∧
      t.entries = s.entries.flatMap (Plan.block es first) := by
  induction h with
  | nil => exact ⟨fun _ => limit, fun _ => Nat.le_refl _, (List.flatMap_singleton' _).symm⟩
  | @cons e es i s t u hlt hc hchain ih =>
    rw [List.map_cons, List.nodup_cons] at hindex
    obtain ⟨first, hfirst, hentries⟩ := ih (hlimit.trans hc.fresh_le) hindex.2
    obtain ⟨before, after, hs, ht⟩ := hc.entries
    have hblocks : ∀ x ∈ before ++ after, Plan.block (e :: es)
        (Function.update first e.anchor.index s.fresh) x = Plan.block es first x := by
      intro x hx
      have hne := CodeStream.ne_of_split hs x (List.mem_append.1 hx)
      rw [Plan.block_cons_of_ne hne, Plan.block_congr (Function.update_of_ne hne _ _)]
    -- no later edit is for anything that stands in the place of this one's instruction
    have hsite : (e.expand s.fresh i).flatMap (Plan.block es first) = e.expand s.fresh i := by
      rw [← List.flatMap_singleton' (e.expand s.fresh i), List.flatMap_assoc]
      refine List.flatMap_congr fun x hx => ?_
      rw [List.flatMap_singleton]
      refine Plan.block_of_none fun f hf heq => ?_
      have hflt : x.1 < s.fresh := heq ▸ (hchain.lt f hf).trans_le hlimit
      obtain ⟨hx, -⟩ := Edit.lt_of_mem_expand hx hflt
      exact hindex.1 (List.mem_map.2 ⟨f, hf, heq.trans hx⟩)
    have hcons : Plan.block (e :: es) (Function.update first e.anchor.index s.fresh)
        (e.anchor.index, i) = e.expand s.fresh i := by
      simp [Plan.block]
    refine ⟨Function.update first e.anchor.index s.fresh, fun n => ?_, ?_⟩
    · rcases eq_or_ne n e.anchor.index with rfl | hne
      · rwa [Function.update_self]
      · rw [Function.update_of_ne hne]
        exact hfirst n
    · rw [hentries, ht, hs, List.flatMap_append, List.flatMap_append, hsite, List.flatMap_append,
        List.flatMap_cons, hcons]
      congr 1
      · exact (List.flatMap_congr fun x hx => hblocks x (List.mem_append_left _ hx)).symm
      · congr 1
        exact (List.flatMap_congr fun x hx => hblocks x (List.mem_append_right _ hx)).symm

end EditChain

namespace Weaver

variable {cx : Context} {m : Method} {es : List Edit} {u v : Draft} {n : Nat}

theorem stream_of_check (h : (check cx.settings m).Done u ⟨⟩ v) : v.stream = u.stream := by
  obtain ⟨-, w, htighten, hcover⟩ := done_check h
  obtain ⟨maxLocals, rfl, -⟩ := coverLocals_eq_ok hcover
  rcases htighten with rfl | htighten
  · rfl
  · obtain ⟨m', -, rfl⟩ := map_eq_ok.1 htighten
    rfl

/-- A woven method: every edit's code at its place, no label twice, and slots for the parameters. -/
structure Laid (m : Method) (es : List Edit) (first : Nat → Nat) (u : Draft) : Prop where
  entries : u.stream.entries = Plan.layout es first 0 m.code
  first : ∀ k, m.code.length ≤ first k
  index : (es.map fun e => e.anchor.index).Nodup
  labels : u.method.code.placed.Nodup
  parameters : m.parameterLength < 2 ^ 16

theorem parameterLength_of_check (h : (check cx.settings m).Done u ⟨⟩ v) :
    u.method.parameterLength < 2 ^ 16 := by
  obtain ⟨-, w, htighten, hcover⟩ := done_check h
  obtain ⟨maxLocals, -, hlocals⟩ := coverLocals_eq_ok hcover
  have hsame : w.method.parameterLength = u.method.parameterLength := by
    rcases htighten with rfl | htighten
    · rfl
    · obtain ⟨m', -, rfl⟩ := map_eq_ok.1 htighten
      rfl
  rw [← hsame]
  exact (Code.le_localsNeeded.trans hlocals).trans_lt maxLocals.toNat_lt

/-- The new code of an edit has new numbers. -/
theorem Laid.le_of_mem_numbered {first : Nat → Nat} {code : Code} {k : Nat}
    {entry : Nat × Instruction} (h : Laid m es first u) (hentry : entry ∈ code.numbered (first k)) :
    m.code.length ≤ entry.1 :=
  (h.first k).trans (Code.le_of_mem_numbered hentry)

/-- New code stands between two places of a woven method, right before an instruction of the old one
or right after it. -/
structure Beside (m : Method) (u : Draft) (placement : Placement) (index : Nat) (i : Instruction)
    (start stop : Nat) : Prop where
  old : m.code[index]? = some i
  stands : ∃ before new after, (∀ entry ∈ new, m.code.length ≤ entry.1) ∧
    stop = start + new.length ∧
    match placement with
    | .before => start = before.length ∧ Plan.StandsAt u.stream.entries m.code.length index before
        (new ++ [(index, i)]) after
    | .after => start = before.length + 1 ∧ Plan.StandsAt u.stream.entries m.code.length index
        before ((index, i) :: new) after

/-- Inserted code stands beside its instruction. -/
theorem Laid.exists_beside {first : Nat → Nat} {a : Anchor} {code : Code} {i : Instruction}
    (h : Laid m es first u) (placement : Placement) (he : .insert placement a code ∈ es)
    (hi : m.code[a.index]? = some i) :
    ∃ start rest, Beside m u placement a.index i start (start + code.length) ∧
      u.method.code.drop start = code ++ rest := by
  have hnew : ∀ entry ∈ code.numbered (first a.index), m.code.length ≤ entry.1 :=
    fun _ => h.le_of_mem_numbered
  have hlen : code.length = (code.numbered (first a.index)).length := Code.length_numbered.symm
  have hanchor := Edit.anchor_insert placement a code
  obtain ⟨before, after, hstands⟩ := Plan.exists_standsAt he h.index (hanchor ▸ hi) h.first
  rw [← h.entries, hanchor] at hstands
  cases placement with
  | before =>
    refine ⟨before.length, i :: after.map Prod.snd,
      ⟨hi, before, _, after, hnew, congrArg _ hlen, rfl, hstands⟩, ?_⟩
    simp [Draft.drop_eq hstands.entries, Edit.insert, Edit.expand, Code.map_snd_numbered]
  | after =>
    refine ⟨before.length + 1, after.map Prod.snd,
      ⟨hi, before, _, after, hnew, congrArg _ hlen, rfl, hstands⟩, ?_⟩
    rw [← List.drop_drop, Draft.drop_eq hstands.entries]
    simp [Edit.insert, Edit.expand, Code.map_snd_numbered]

/-- A method that edits, each for an instruction of its own, have made another one, with every label
in one place. -/
structure Changed (m : Method) (es : List Edit) (u : Draft) : Prop where
  chain : EditChain m.code.length es (Draft.ofMethod m).stream u.stream
  index : (es.map fun e => e.anchor.index).Nodup
  labels : u.method.code.placed.Nodup
  targets : ∀ l ∈ u.method.code.targets, l ∈ u.method.code.placed
  parameters : m.parameterLength < 2 ^ 16

theorem Changed.exists_laid (h : Changed m es u) : ∃ first, Laid m es first u := by
  obtain ⟨first, hfirst, hentries⟩ :=
    h.chain.exists_entries_eq CodeStream.fresh_ofList.ge h.index
  rw [Draft.ofMethod, CodeStream.entries_ofList] at hentries
  exact ⟨first, hentries, hfirst, h.index, h.labels, h.parameters⟩

/-- A method so changed, by edits that suit their instructions. -/
structure Edited (m : Method) (es : List Edit) (u : Draft) : Prop where
  run : EditRun m.code.length es (Draft.ofMethod m).stream u.stream
  index : (es.map fun e => e.anchor.index).Nodup
  labels : u.method.code.placed.Nodup
  targets : ∀ l ∈ u.method.code.targets, l ∈ u.method.code.placed
  parameters : m.parameterLength < 2 ^ 16

theorem Edited.exists_laid (h : Edited m es u) : ∃ first, Laid m es first u :=
  Changed.exists_laid ⟨h.run.chain, h.index, h.labels, h.targets, h.parameters⟩

theorem exists_changed_of_done
    (hapart : ∀ p, (plan cx (Draft.ofMethod m)).result = .ok p →
      ∃ es slots, p = .edits es slots ∧ Plan.Apart (Draft.ofMethod m).stream es)
    (h : (weaveMethod cx).Done (Draft.ofMethod m) n u) :
    ∃ es slots, (plan cx (Draft.ofMethod m)).result = .ok (.edits es slots) ∧
      es.length = n ∧ Changed m es u := by
  obtain ⟨p, edited, hplan, happly, hcheck⟩ := done_weaveMethod.1 h
  obtain ⟨es, slots, rfl, hapart⟩ := hapart p hplan
  obtain ⟨t, ht, hchain⟩ := hapart.exists_chain
  obtain ⟨hlength, hraise⟩ := (hapart.done_apply ht).1 happly
  obtain ⟨maxStack, maxLocals, rfl, -⟩ := Plan.raise_eq_ok hraise
  obtain ⟨hplaced, htargets⟩ := exists_checkLabels_iff.1 (done_check hcheck).1
  have hstream : u.stream = t := stream_of_check hcheck
  have hcode : u.method.code = t.instructions := by rw [← u.agrees, hstream]
  have hfresh : (Draft.ofMethod m).stream.fresh = m.code.length := CodeStream.fresh_ofList
  refine ⟨es, slots, hplan, hlength, hstream ▸ hfresh ▸ hchain, hchain.nodup_index hapart.anchors,
    hcode ▸ hplaced, hcode ▸ htargets, lt_of_eq_of_lt ?_ (parameterLength_of_check hcheck)⟩
  exact Method.parameterLength_congr rfl rfl

theorem exists_edited_of_done
    (hready : ∀ p, (plan cx (Draft.ofMethod m)).result = .ok p →
      ∃ es slots, p = .edits es slots ∧ Plan.Ready (Draft.ofMethod m).stream m.freeLabel es)
    (h : (weaveMethod cx).Done (Draft.ofMethod m) n u) :
    ∃ es slots, (plan cx (Draft.ofMethod m)).result = .ok (.edits es slots) ∧
      es.length = n ∧ Edited m es u := by
  obtain ⟨es, slots, hplan, hlength, hchanged⟩ := exists_changed_of_done
    (fun p hp => (hready p hp).imp fun _ => Exists.imp fun _ => And.imp_right Plan.Ready.apart) h
  obtain ⟨fs, slots', heq, hready⟩ := hready _ hplan
  cases heq
  exact ⟨es, slots, hplan, hlength, .of_chain hchanged.chain hready.sites hready.anchors,
    hchanged.index, hchanged.labels, hchanged.targets, hchanged.parameters⟩

theorem exists_laid_of_done
    (hready : ∀ p, (plan cx (Draft.ofMethod m)).result = .ok p →
      ∃ es slots, p = .edits es slots ∧ Plan.Ready (Draft.ofMethod m).stream m.freeLabel es)
    (h : (weaveMethod cx).Done (Draft.ofMethod m) n u) :
    ∃ es slots first, (plan cx (Draft.ofMethod m)).result = .ok (.edits es slots) ∧
      es.length = n ∧ Laid m es first u := by
  obtain ⟨es, slots, hplan, hlength, hedited⟩ := exists_edited_of_done hready h
  obtain ⟨first, hlaid⟩ := hedited.exists_laid
  exact ⟨es, slots, first, hplan, hlength, hlaid⟩

end Weaver

end CodeWeaving
