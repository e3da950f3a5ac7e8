import CodeWeaving.Proofs.Weaving.CopiedBodies

/-! Constructions in copied code: calls of constructors move with a class, allocations stay. So a
construction is one still unless it is of the class that has moved. -/
namespace CodeWeaving

/-- Code allocates an object of the class at one place, and has one initialized at another. -/
structure Code.Constructs (code : Code) (p q : Nat) (cls : ClassName) : Prop where
  allocates : code[p]? = some (.new cls)
  initializes : ∃ signature, code[q]? = some (.invoke .special ⟨cls, .init, signature⟩)

namespace Overwrite

variable {source target cls : ClassName} {code : Code} {p q : Nat} {i : Instruction}

theorem retarget_eq_new : retarget source target i = .new cls ↔ i = .new cls := by
  cases i <;> simp [retarget]

theorem retarget_init {signature : Signature} :
    retarget source target (.invoke .special ⟨cls, .init, signature⟩) =
      .invoke .special ⟨if cls = source then target else cls, .init, signature⟩ := by
  rw [retarget]
  split <;> rfl

theorem allocates_retarget :
    (code.map (retarget source target))[p]? = some (.new cls) ↔ code[p]? = some (.new cls) := by
  rw [List.getElem?_map, Option.map_eq_some_iff]
  simp [retarget_eq_new]

/-- A construction keeps its places, and the class of its allocation. -/
theorem retarget_construction (h : code.Constructs p q cls) :
    (code.map (retarget source target))[p]? = some (.new cls) ∧
      ∃ signature, (code.map (retarget source target))[q]? =
        some (.invoke .special ⟨if cls = source then target else cls, .init, signature⟩) := by
  obtain ⟨signature, hq⟩ := h.initializes
  refine ⟨allocates_retarget.2 h.allocates, signature, ?_⟩
  rw [List.getElem?_map, hq, ← retarget_init]
  rfl

theorem constructs_retarget_iff (h : code.Constructs p q cls) :
    (∃ d, Code.Constructs (code.map (retarget source target)) p q d) ↔
      (cls = source → source = target) := by
  obtain ⟨hnew, signature, hinit⟩ := @retarget_construction source target _ _ _ _ h
  constructor
  · rintro ⟨d, hallocates, signature', hinitializes⟩ rfl
    obtain rfl : cls = d := by simpa using hnew.symm.trans hallocates
    have howner := hinit.symm.trans hinitializes
    simp only [if_pos, Option.some.injEq, Instruction.invoke.injEq, MethodRef.mk.injEq] at howner
    exact howner.2.1.symm
  · intro hsame
    refine ⟨cls, hnew, signature, ?_⟩
    rw [hinit]
    split
    · next hcls => rw [← hsame hcls, hcls]
    · rfl

end Overwrite

namespace Weaver

variable {settings : Settings} {handlers : HandlerProvider} {c : ClassDefinition}
  {ds : List Directive} {o : Outcome} {m : Method} {k i : Nat}

/-- In every method that an applied directive overwrites, the handler's allocations stand where they
stood and are of the classes that they were of. Constructors called on the handler's class are
called on the method's. So a construction is one after copying unless it is of the handler's class,
and that is not the method's. -/
theorem constructions_copied (ho : (weave settings handlers c ds).outcomes[k]? = some o)
    (happlied : o.status = .applied) (haction : o.directive.action = .overwrite)
    (hm : (classAt settings handlers c ds k).methods[i]? = some m)
    (haccepts : o.directive.target.accepts m = true) :
    ∃ body m', handlers o.directive.handler = some body ∧
      (classAt settings handlers c ds (k + 1)).methods[i]? = some m' ∧
      ∀ p q cls, body.code.Constructs p q cls →
        m'.code[p]? = some (.new cls) ∧
        (∃ signature, m'.code[q]? = some (.invoke .special
          ⟨if cls = o.directive.handler.owner then o.directive.targetClass else cls, .init,
            signature⟩)) ∧
        ((∃ d, m'.code.Constructs p q d) ↔
          (cls = o.directive.handler.owner →
            o.directive.handler.owner = o.directive.targetClass)) := by
  obtain ⟨hnext, happlies⟩ := turn_of_applied ho happlied
  have hown : m ∈ own o.directive (classAt settings handlers c ds k) :=
    List.mem_filter.2 ⟨List.mem_of_getElem? hm, haccepts⟩
  obtain ⟨body, n, v, hbody, hdone, hrework⟩ := done_of_applies haction happlies hown
  obtain ⟨hcode, -⟩ := overwritten_of_weaveMethod haction hdone
  refine ⟨body, v.method, hbody, ?_, fun p q cls hconstructs => ?_⟩
  · rw [hnext, weaveOne_eq.1, List.getElem?_map, hm, ← hrework]
    rfl
  · rw [hcode, happlies.1]
    obtain ⟨hnew, hinit⟩ := Overwrite.retarget_construction hconstructs
    exact ⟨hnew, hinit, Overwrite.constructs_retarget_iff hconstructs⟩

/-- An object of the handler's class is made and dropped. -/
def constructingCode : Code :=
  [.new .number, .dup, .invoke .special ⟨.number, .init, ⟨[], none⟩⟩, .pop, .ret none]

theorem constructingCode_constructs : constructingCode.Constructs 0 2 .number := ⟨rfl, _, rfl⟩

theorem outcomes_constructing :
    (weave .standard (copyProvider constructingCode) (plainClass [.ret none])
      [copyDirective]).outcomes[0]? =
        some ⟨0, copyDirective, [(plainMethod []).identity], 1, .applied⟩ := by
  decide +kernel

theorem plainClass_construction_copied :
    (weave .standard (copyProvider constructingCode) (plainClass [.ret none])
      [copyDirective]).outcomes[0]? =
        some ⟨0, copyDirective, [(plainMethod []).identity], 1, .applied⟩ ∧
    copyDirective.target.accepts (plainMethod [.ret none]) = true ∧
    constructingCode.Constructs 0 2 .number ∧
    ∃ m', (classAt .standard (copyProvider constructingCode) (plainClass [.ret none])
        [copyDirective] 1).methods[0]? = some m' ∧
      m'.code[0]? = some (.new .number) ∧
      ∃ signature, m'.code[2]? = some (.invoke .special ⟨.object, .init, signature⟩) := by
  refine ⟨outcomes_constructing, by decide, constructingCode_constructs, ?_⟩
  obtain ⟨body, m', hbody, hm', hcopied⟩ :=
    constructions_copied outcomes_constructing rfl rfl
      (show (plainClass [.ret none]).methods[0]? = some (plainMethod [.ret none]) from rfl)
      (by decide)
  obtain rfl : plainMethod constructingCode = body := Option.some.inj hbody
  obtain ⟨hnew, hinit, -⟩ := hcopied 0 2 .number constructingCode_constructs
  exact ⟨m', hm', hnew, hinit⟩

/-- The allocated object is not the one that is initialized. -/
theorem not_always_constructed : ¬ ∀ settings handlers c ds k o body (i : Nat) (m : Method)
      p q cls,
    (weave settings handlers c ds).outcomes[k]? = some o → o.status = .applied →
    o.directive.action = .overwrite → handlers o.directive.handler = some body →
    (classAt settings handlers c ds (k + 1)).methods[i]? = some m → m.identity ∈ o.methods →
    body.code.Constructs p q cls → ∃ d, m.code.Constructs p q d := by
  intro hconstructed
  have hm : ((classAt .standard (copyProvider constructingCode) (plainClass [.ret none])
      [copyDirective] 1).methods[0]?.map fun m => (m.identity, m.code)) =
        some ((plainMethod []).identity,
          constructingCode.map (Overwrite.retarget .number .object)) := by
    decide +kernel
  obtain ⟨m, hget, hm⟩ := Option.map_eq_some_iff.1 hm
  obtain ⟨hidentity, hcode⟩ := Prod.mk.inj hm
  have hconstructs : ∃ d, m.code.Constructs 0 2 d :=
    hconstructed _ _ _ _ _ _ _ _ _ _ _ _ outcomes_constructing rfl rfl
      (show copyProvider constructingCode copyDirective.handler =
        some (plainMethod constructingCode) from rfl) hget
      (by rw [hidentity]; exact List.mem_singleton_self _) constructingCode_constructs
  rw [hcode, Overwrite.constructs_retarget_iff constructingCode_constructs] at hconstructs
  exact absurd (hconstructs rfl) (by decide)

end Weaver

end CodeWeaving
