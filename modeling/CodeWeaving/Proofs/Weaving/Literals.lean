import CodeWeaving.Proofs.Weaving.Layout
import CodeWeaving.Proofs.Weaving.WovenInstructions

/-! Literals of woven code: those of the method and of what is copied into it, and of its own
nothing but numbers, texts and zero values. -/
namespace CodeWeaving

/-- What holds of all literals that are pushed. -/
def Code.Literals (P : Constant → Prop) (code : Code) : Prop :=
  ∀ i ∈ code, ∀ c, i = .pushConstant c → P c

variable {P : Constant → Prop} {code : Code} {m : Method} {cx : Context}

theorem Code.Made.literals {reads writes : UInt16 → ValueKind → Prop}
    (h : code.Made reads writes) : code.Literals Constant.Made := by
  rintro i hi c rfl
  exact h _ hi

theorem Overwrite.literals_retarget (source target : ClassName) (h : code.Literals P) :
    Code.Literals P (code.map (retarget source target)) := by
  intro i hi c hc
  obtain ⟨j, hj, rfl⟩ := List.mem_map.1 hi
  cases j with
  | pushConstant c' =>
    cases hc
    exact h _ hj c rfl
  | _ => cases hc

namespace Weaver

/-- What holds of all literals of a method and of the handler's body, and of those that woven code
pushes of its own accord, holds of them after weaving. -/
theorem literals_of_weaveMethod {n : Nat} {u : Draft} (hmade : ∀ c, Constant.Made c → P c)
    (hm : m.code.Literals P) (hbody : cx.handler.body.code.Literals P)
    (h : (weaveMethod cx).Done (Draft.ofMethod m) n u) : u.method.code.Literals P := by
  by_cases haction : cx.directive.action = .overwrite
  · obtain ⟨p, edited, hplan, happly, hcheck⟩ := done_weaveMethod.1 h
    simp only [plan, haction] at hplan
    obtain ⟨-, rfl⟩ := Overwrite.plan_eq_ok hplan
    have hcode : u.method.code = edited.method.code := by
      rw [← u.agrees, stream_of_check hcheck, edited.agrees]
    rw [hcode, (Plan.code_of_newBody happly).1]
    exact Overwrite.literals_retarget _ _ hbody
  · obtain ⟨es, slots, hplan, -, hchanged⟩ :=
      exists_changed_of_done (fun p hp => apart_of_plan haction hp) h
    obtain ⟨fs, slots', taken, heq, -, huses⟩ := spends_of_plan haction hplan
    cases heq
    intro i hi c hc
    rw [← u.agrees] at hi
    rcases hchanged.chain.mem_instructions hi with hi | ⟨e, he, hi⟩
    · rw [(Draft.ofMethod m).agrees] at hi
      exact hm i hi c hc
    · exact hmade c ((huses e he).literals i hi c hc)

end Weaver

end CodeWeaving
