import CodeWeaving.Proofs.Weaving.Edits
import CodeWeaving.Proofs.Weaving.Locating
import CodeWeaving.Weaving.Mode.Arguments

/-! Sites: all are instructions of the stream they were found in, and no two are the same. -/
namespace CodeWeaving

namespace CodeStream

variable {s : CodeStream} {positions : List Nat} {site : Site} {sites : List Site}
  {p : InjectionPoint} {c : ConstantMatch} {epsilon : Float}

theorem mem_sites : site ∈ s.sites positions ↔
    ∃ p ∈ positions, ∃ n, s.entries[p]? = some (n, site.instruction) ∧
      site.anchor = s.anchor n := by
  obtain ⟨anchor, i⟩ := site
  simp only [sites, List.mem_filterMap, Option.map_eq_some_iff, Prod.exists, Site.mk.injEq]
  refine exists_congr fun p => and_congr_right fun _ => ⟨?_, ?_⟩
  · rintro ⟨n, j, hp, rfl, rfl⟩
    exact ⟨n, hp, rfl⟩
  · rintro ⟨n, hp, rfl⟩
    exact ⟨n, i, hp, rfl, rfl⟩

theorem names_of_mem_sites (h : site ∈ s.sites positions) :
    s.Names site.anchor site.instruction := by
  obtain ⟨p, -, n, hp, hanchor⟩ := mem_sites.1 h
  rw [hanchor]
  exact ⟨rfl, List.mem_of_getElem? hp⟩

theorem nodup_sites (h : positions.Nodup) : ((s.sites positions).map Site.anchor).Nodup := by
  rw [sites, List.map_filterMap]
  refine h.filterMap fun p q a hp hq => ?_
  simp only [Option.map_map, Option.mem_def, Option.map_eq_some_iff, Function.comp_apply] at hp hq
  obtain ⟨e, he, rfl⟩ := hp
  obtain ⟨f, hf, heq⟩ := hq
  have hindex : e.1 = f.1 := (Anchor.mk.inj heq).2.symm
  have hp : (s.entries.map Prod.fst)[p]? = some e.1 := by simp [he]
  have hq : (s.entries.map Prod.fst)[q]? = some e.1 := by simp [hf, hindex]
  exact (List.getElem?_inj (List.getElem?_eq_some_iff.1 hp).1 s.nodup).1 (hp.trans hq.symm)

/-- Sites of a stream, each an instruction of its own. -/
structure Located (s : CodeStream) (sites : List Site) : Prop where
  names : ∀ site ∈ sites, s.Names site.anchor site.instruction
  nodup : (sites.map Site.anchor).Nodup

theorem located_of_locate (h : s.locate p = .ok sites) : s.Located sites := by
  rw [locate_eq] at h
  obtain ⟨positions, hpositions, rfl⟩ := map_eq_ok.1 h
  refine ⟨fun site => names_of_mem_sites, nodup_sites ?_⟩
  obtain ⟨found, -, hfound⟩ := bind_eq_ok.1 hpositions
  cases hfound
  exact nodup_eraseDups _

theorem located_of_locateConstant (h : s.locateConstant c epsilon = .ok sites) :
    s.Located sites := by
  obtain ⟨positions, hpositions, rfl⟩ := map_eq_ok.1 h
  exact ⟨fun site => names_of_mem_sites,
    nodup_sites (Code.nodup_positions.sublist (sublist_of_chooseOrdinal hpositions))⟩

theorem kind_eq_of_literalsMatch {a b : Constant} (h : literalsMatch epsilon a b = true) :
    a.kind = b.kind := by
  cases a <;> cases b <;> first | rfl | cases h

theorem pushes_of_literal? {i : Instruction} {a : Constant} (hi : i.declaresLiteral = true)
    (h : i.literal? = some a) : i.effect.pushes = a.kind.width := by
  cases i with
  | pushConstant value =>
    cases h
    rfl
  | raw r =>
    simp only [Instruction.literal?] at h
    simp only [Instruction.declaresLiteral, Bool.or_eq_true, Bool.not_eq_true', Bool.and_eq_true,
      beq_iff_eq] at hi
    have hpushes : r.pushes = 1 ∧ a.kind = .int := by
      split at h
      · obtain ⟨b, -, rfl⟩ := Option.map_eq_some_iff.1 h
        simp_all [Constant.kind]
      · split at h
        · obtain ⟨b, -, rfl⟩ := Option.map_eq_some_iff.1 h
          simp_all [Constant.kind]
        · cases h
    simp [Instruction.effect, hpushes, ValueKind.width]
  | _ => cases h

theorem exists_literal_of_locateConstant (h : s.locateConstant c epsilon = .ok sites)
    (hsite : site ∈ sites) :
    ∃ pushed, site.instruction.literal? = some pushed ∧ pushed.kind = c.value.kind := by
  obtain ⟨positions, hpositions, rfl⟩ := map_eq_ok.1 h
  obtain ⟨p, hp, n, hentry, -⟩ := mem_sites.1 hsite
  obtain ⟨i, hi, htest⟩ :=
    Code.mem_positions.1 ((sublist_of_chooseOrdinal hpositions).subset hp)
  obtain rfl : site.instruction = i := by simpa [instructions, hentry] using hi
  obtain ⟨pushed, hpushed, hmatch⟩ := (Option.any_eq_true _ _).1 htest
  exact ⟨pushed, hpushed, kind_eq_of_literalsMatch hmatch⟩

/-- A literal that was found is as wide as the one that was looked for. -/
theorem pushes_of_locateConstant (h : s.locateConstant c epsilon = .ok sites)
    (hsite : site ∈ sites) (hliteral : site.instruction.declaresLiteral = true) :
    site.instruction.effect.pushes = c.value.type.width := by
  obtain ⟨pushed, hpushed, hkind⟩ := exists_literal_of_locateConstant h hsite
  rw [pushes_of_literal? hliteral hpushed, hkind, ValueType.width, Constant.kind_type]

end CodeStream

variable {d : Draft} {p : InjectionPoint} {sites : List Site}

theorem Context.located_of_sites (h : Context.sites d p = .ok sites) : d.stream.Located sites := by
  obtain ⟨found, hfound, h⟩ := bind_eq_ok.1 h
  split at h <;> cases h
  exact CodeStream.located_of_locate hfound

namespace CallSite

variable {c : CallSite} {cs : List CallSite}

theorem ofSite_eq_ok {site : Site} (h : ofSite site = .ok c) :
    c.anchor = site.anchor ∧ ∃ kind, site.instruction = .invoke kind c.call := by
  obtain ⟨anchor, i⟩ := site
  cases i with
  | invoke kind m =>
    cases h
    exact ⟨rfl, kind, rfl⟩
  | _ => cases h

theorem mapM_ofSite (h : sites.mapM ofSite = .ok cs) :
    cs.map CallSite.anchor = sites.map Site.anchor ∧
      ∀ c ∈ cs, ∃ site ∈ sites, ofSite site = .ok c := by
  induction sites generalizing cs with
  | nil =>
    cases h
    simp
  | cons site sites ih =>
    simp only [List.mapM_cons, bind_eq_ok] at h
    obtain ⟨c, hc, rest, hrest, h⟩ := h
    cases h
    obtain ⟨hanchors, hmem⟩ := ih hrest
    refine ⟨by simp [hanchors, (ofSite_eq_ok hc).1], ?_⟩
    intro c' hc'
    rcases List.mem_cons.1 hc' with rfl | hc'
    · exact ⟨site, List.mem_cons_self, hc⟩
    · obtain ⟨site', hsite', hof⟩ := hmem c' hc'
      exact ⟨site', List.mem_cons_of_mem _ hsite', hof⟩

/-- Calls that were found are calls of the stream, each one of its own. -/
theorem located_of_locate (h : locate d p = .ok cs) : (cs.map CallSite.anchor).Nodup ∧
    ∀ c ∈ cs, ∃ kind, d.stream.Names c.anchor (.invoke kind c.call) := by
  unfold locate at h
  split at h
  · obtain ⟨sites, hsites, h⟩ := bind_eq_ok.1 h
    have hlocated := Context.located_of_sites hsites
    obtain ⟨hanchors, hmem⟩ := mapM_ofSite h
    refine ⟨hanchors ▸ hlocated.nodup, fun c hc => ?_⟩
    obtain ⟨site, hsite, hof⟩ := hmem c hc
    obtain ⟨hanchor, kind, hcall⟩ := ofSite_eq_ok hof
    exact ⟨kind, by rw [hanchor, ← hcall]; exact hlocated.names site hsite⟩
  · cases h

end CallSite

end CodeWeaving
