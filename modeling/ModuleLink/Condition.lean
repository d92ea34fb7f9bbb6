import ModuleLink.RuntimeSpec

/-!
This module contains the conditions under which an edge of the module graph is active, and the states
to which they evaluate in a runtime.
-/

namespace ModuleLink

inductive Activity where
  | active
  | inactive
  | transitiveOnly
  | circular
deriving DecidableEq, Repr, Inhabited

namespace Activity

def union : Activity → Activity → Activity
  | .active, _ | _, .active => .active
  | .inactive, b => b
  | a, .inactive => a
  | .transitiveOnly, b => b
  | a, _ => a

def intersect : Activity → Activity → Activity
  | .inactive, _ | _, .inactive => .inactive
  | .active, b => b
  | a, .active => a
  | .circular, b => b
  | a, _ => a

def isActive (a : Activity) : Bool := a != .inactive

end Activity

inductive Condition where
  | always
  | never
  | inRuntimes (runtimes : RuntimeSpec)
  | transitiveOnly
  | all (conditions : List Condition)
deriving Repr, Inhabited

namespace Condition

mutual

def evaluate (runtime : Option RuntimeSpec) : Condition → Activity
  | .always => .active
  | .never => .inactive
  | .inRuntimes spec => if spec.covers runtime then .active else .inactive
  | .transitiveOnly => .transitiveOnly
  | .all cs => evaluateAll runtime .active cs

def evaluateAll (runtime : Option RuntimeSpec) (state : Activity) : List Condition → Activity
  | [] => state
  | c :: cs => evaluateAll runtime (state.intersect (c.evaluate runtime)) cs

end

def and : Condition → Condition → Condition
  | .always, c | c, .always => c
  | .all cs, .all ds => .all (cs ++ ds)
  | .all cs, c | c, .all cs => .all (cs ++ [c])
  | c, d => .all [c, d]

end Condition
end ModuleLink
