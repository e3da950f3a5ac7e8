import CodeWeaving.Proofs.Weaving.EditRuns
import CodeWeaving.Proofs.Weaving.Planning
import Mathlib.Data.List.Perm.Subperm

/-! Plans carried out: edits that are ready all succeed, and only a bound may be too great. -/
namespace CodeWeaving

open Code

theorem boundOf?_eq_some {n : Nat} {bound : UInt16} (h : boundOf? n = some bound) :
    bound.toNat = n := by
  unfold boundOf? at h
  split at h <;> cases h
  exact UInt16.toNat_ofNat_of_lt' ‹_›

namespace Plan

variable {es : List Edit} {d u : Draft} {first : Label} {slots : SlotAllocator} {t : CodeStream}
  {id height n : Nat} {code : Code} {e : WeaveError}

theorem done_edits (ht : es.foldlM Edit.apply d.stream = .ok t) :
    (es.forM fun e => InPlace.update (edit e)).Done d ⟨⟩ (d.withStream t) := by
  induction es generalizing d with
  | nil =>
    cases ht
    exact InPlace.done_pure.2 ⟨rfl, d.withStream_stream.symm⟩
  | cons e es ih =>
    obtain ⟨s, hs, ht⟩ := bind_eq_ok.1 ht
    refine InPlace.done_bind.2 ⟨⟨⟩, d.withStream s, InPlace.done_update.2 ?_, ih ht⟩
    rw [edit, hs]
    rfl

theorem code_of_newBody {maxStack maxLocals : UInt16}
    (h : (Plan.newBody code maxStack maxLocals).apply.Done d n u) :
    u.method.code = code ∧ u.method.maxStack = maxStack := by
  obtain ⟨_, _, hupdate, hpure⟩ := InPlace.done_bind.1 h
  cases InPlace.done_update.1 hupdate
  obtain ⟨-, rfl⟩ := InPlace.done_pure.1 hpure
  exact ⟨CodeStream.instructions_ofList _ _, rfl⟩

theorem raise_eq_ok (h : raise height slots d = .ok u) : ∃ maxStack maxLocals,
    u = d.withBounds maxStack maxLocals ∧ maxStack.toNat = d.method.maxStack.toNat + height := by
  unfold raise at h
  dsimp only at h
  split at h
  · cases h
  · rename_i maxStack hbound
    cases h
    exact ⟨maxStack, _, rfl, boundOf?_eq_some hbound⟩

theorem raise_eq_error (h : raise height slots d = .error e) :
    ∃ depth, e = .invariant (.model (.maxStackOverflow depth)) := by
  unfold raise at h
  dsimp only at h
  split at h <;> cases h
  exact ⟨_, rfl⟩

namespace Apart

theorem exists_chain {s : CodeStream} (h : Apart s es) :
    ∃ t, es.foldlM Edit.apply s = .ok t ∧ EditChain s.fresh es s t := by
  refine EditChain.exists_foldlM (fun e he => ?_) h.names h.anchors
  obtain ⟨i, hi⟩ := h.names e he
  exact s.below _ hi.2

theorem done_positions (h : ∀ e ∈ es, ∃ i, d.stream.Names e.anchor i) :
    (es.forM fun e => InPlace.require fun d : Draft =>
      (d.stream.position e.anchor).mapError anchorFault).Done d ⟨⟩ d := by
  induction es with
  | nil => exact InPlace.done_pure.2 ⟨rfl, rfl⟩
  | cons e es ih =>
    obtain ⟨i, hi⟩ := h e List.mem_cons_self
    obtain ⟨p, hp⟩ := hi.position
    refine InPlace.done_bind.2 ⟨⟨⟩, d, InPlace.done_require.2 ⟨⟨p, ?_⟩, rfl⟩,
      ih fun f hf => h f (List.mem_cons_of_mem _ hf)⟩
    rw [hp]
    rfl

theorem done_apply (h : Apart d.stream es) (ht : es.foldlM Edit.apply d.stream = .ok t) :
    (Plan.edits es slots).apply.Done d n u ↔
      es.length = n ∧ raise (peak es) slots (d.withStream t) = .ok u := by
  rw [apply, InPlace.done_bind_of_done (done_positions h.names),
    InPlace.done_bind_of_done (done_edits ht)]
  simp [and_comm]

theorem failed_apply (h : Apart d.stream es) (ht : es.foldlM Edit.apply d.stream = .ok t) :
    (Plan.edits es slots).apply.Failed d e u ↔
      raise (peak es) slots (d.withStream t) = .error e ∧ d.withStream t = u := by
  rw [apply, InPlace.failed_bind_of_done (done_positions h.names),
    InPlace.failed_bind_of_done (done_edits ht)]
  simp

/-- Edits of their own instructions are all made, even if the bound is too great in the end. -/
theorem stream_left (h : Apart d.stream es) (ht : es.foldlM Edit.apply d.stream = .ok t) :
    ((Plan.edits es slots).apply.left d).stream = t := by
  rcases InPlace.done_or_failed (Plan.edits es slots).apply d with ⟨n, hdone⟩ | ⟨e, hfailed⟩
  · obtain ⟨_, _, hleft, -⟩ := raise_eq_ok ((h.done_apply ht).1 hdone).2
    rw [hleft]
    rfl
  · rw [← ((h.failed_apply ht).1 hfailed).2]
    rfl

end Apart

namespace Ready

theorem exists_run (h : Ready (CodeStream.ofList id code) first es) :
    ∃ t, es.foldlM Edit.apply (CodeStream.ofList id code) = .ok t ∧
      EditRun code.length es (CodeStream.ofList id code) t := by
  have hlt : ∀ e ∈ es, e.anchor.index < code.length := by
    intro e he
    obtain ⟨i, hi, -⟩ := h.sites e he
    exact CodeStream.fresh_ofList ▸ CodeStream.below _ _ hi.2
  obtain ⟨t, ht, hchain⟩ := EditChain.exists_foldlM hlt h.apart.names h.anchors
  exact ⟨t, ht, .of_chain hchain h.sites h.anchors⟩

/-- There are no more edits than instructions. -/
theorem length_le (h : Ready (CodeStream.ofList id code) first es) : es.length ≤ code.length := by
  have hsubset : es.map Edit.anchor ⊆ (CodeStream.ofList id code).anchors := by
    intro a ha
    obtain ⟨e, he, rfl⟩ := List.mem_map.1 ha
    obtain ⟨i, ⟨hid, hmem⟩, -⟩ := h.sites e he
    refine List.mem_map.2 ⟨(e.anchor.index, i), hmem, ?_⟩
    change Anchor.mk (CodeStream.ofList id code).id e.anchor.index = e.anchor
    rw [← hid]
  have := (List.Nodup.subperm h.anchors hsubset).length_le
  simpa [CodeStream.anchors, CodeStream.entries_ofList, Code.length_numbered] using this

end Ready

end Plan

end CodeWeaving
