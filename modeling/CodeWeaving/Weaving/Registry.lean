import CodeWeaving.Weaving.Directive

/-! Directives by the class they are for. -/
namespace CodeWeaving

/-- The directives of each class, in weaving order; a class is there once it has a directive. -/
structure Registry where
  classes : List (ClassName × List Directive)

namespace Registry

/-- Adds a directive after those of its class. -/
def insert (classes : List (ClassName × List Directive)) (d : Directive) :
    List (ClassName × List Directive) :=
  match classes with
  | [] => [(d.targetClass, [d])]
  | (c, ds) :: rest =>
    if c = d.targetClass then (c, ds ++ [d]) :: rest else (c, ds) :: insert rest d

def ofList (ds : List Directive) : Registry :=
  ⟨(ds.foldl insert []).map fun (c, ds) => (c, inWeavingOrder Directive.priority ds)⟩

def directivesFor (r : Registry) (c : ClassName) : List Directive := (r.classes.lookup c).getD []

/-- Number of directives of all classes. -/
def size (r : Registry) : Nat := (r.classes.flatMap Prod.snd).length

def isEmpty (r : Registry) : Bool := r.classes.isEmpty

/-- Names of the classes that have directives, in alphabetical order. -/
def classNames (r : Registry) : List ClassName :=
  (r.classes.map Prod.fst).mergeSort fun a b => a.text ≤ b.text

end Registry

end CodeWeaving
