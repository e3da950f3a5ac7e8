import CodeWeaving.Name

/-! Settings of the weaver. -/
namespace CodeWeaving

structure Settings where
  /-- Priority of directives that give none. -/
  defaultPriority : Int32
  /-- How far apart floats may be and still match. -/
  floatEpsilon : Float
  /-- Whether woven methods have their stack depths checked. -/
  verifyAfterWeave : Bool
  /-- Token that a handler can cancel a method with. -/
  cancellationToken : ClassName
  /-- Token that carries a result besides. -/
  returnableToken : ClassName
  /-- Class that hands the arguments of a call to a handler. -/
  argumentView : ClassName
  deriving DecidableEq

namespace Settings

def standard : Settings where
  defaultPriority := 1000
  floatEpsilon := 1e-6
  verifyAfterWeave := true
  cancellationToken := ⟨"weaver/runtime/CancellationToken", by decide⟩
  returnableToken := ⟨"weaver/runtime/ReturnableToken", by decide⟩
  argumentView := ⟨"weaver/runtime/ArgumentView", by decide⟩

/-- Standard settings with the support classes in another package. -/
def ofPackage? (package : String) : Except NameError Settings := do
  let cancellationToken ← ClassName.ofString? (package ++ "/CancellationToken")
  let returnableToken ← ClassName.ofString? (package ++ "/ReturnableToken")
  let argumentView ← ClassName.ofString? (package ++ "/ArgumentView")
  pure { standard with cancellationToken, returnableToken, argumentView }

def isToken (s : Settings) (c : ClassName) : Bool :=
  c = s.cancellationToken || c = s.returnableToken

end Settings

end CodeWeaving
