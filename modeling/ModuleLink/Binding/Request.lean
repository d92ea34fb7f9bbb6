import ModuleLink.Binding.Resolve

/-!
This module contains sequences of requests, which share one account of the needed objects.
-/

namespace ModuleLink

structure Request where
  module : ModuleId
  path : List String
  site : ReferenceSite := {}
deriving DecidableEq, Repr, Inhabited

def NeededObjects.addFrom (n : NeededObjects) (r : Resolution) : NeededObjects :=
  match r.need with
  | some need => n.add need
  | none => n

namespace Linker

def answer (l : Linker) (needed : NeededObjects) (r : Request) :
    Except LinkError Binding × NeededObjects :=
  let resolution := l.resolve r.module r.path r.site
  (resolution.result, needed.addFrom resolution)

def answerAll (l : Linker) (needed : NeededObjects) :
    List Request → List (Except LinkError Binding) × NeededObjects
  | [] => ([], needed)
  | r :: rs =>
    let (result, needed) := l.answer needed r
    let (results, needed) := l.answerAll needed rs
    (result :: results, needed)

end Linker
end ModuleLink
