import ModuleLink.Condition
import ModuleLink.ModuleId

/-!
This module contains dependencies, which are requests of one module for another, and connections,
which are the edges that resolved dependencies give rise to.
-/

namespace ModuleLink

structure DependencyId where
  index : Nat
deriving DecidableEq, Repr, Inhabited

structure ConnectionId where
  index : Nat
deriving DecidableEq, Repr, Inhabited

structure Dependency where
  request : String
  ids : List String := []
  weak : Bool := false
  deferred : Bool := false
  condition : Condition := .always
deriving Repr, Inhabited

structure Connection where
  id : ConnectionId
  origin : Option ModuleId
  resolvedOrigin : Option ModuleId
  dependency : Option DependencyId
  target : ModuleId
  resolvedTarget : ModuleId
  weak : Bool
  deferred : Bool
  active : Bool
  /--
  A condition takes precedence over `active`.
  -/
  condition : Option Condition
  explanations : List String
deriving Repr, Inhabited

namespace Connection

def resolve (id : ConnectionId) (origin : Option ModuleId) (number : DependencyId)
    (dependency : Dependency) (target : ModuleId) : Connection where
  id
  origin
  resolvedOrigin := origin
  dependency := some number
  target
  resolvedTarget := target
  weak := dependency.weak
  deferred := dependency.deferred
  active := true
  condition :=
    match dependency.condition with
    | .always => none
    | c => some c
  explanations := []

def isConditional (c : Connection) : Bool := c.condition.isSome

def addCondition (c : Connection) (condition : Condition) : Connection :=
  match c.condition with
  | some existing => { c with condition := some (existing.and condition) }
  | none => if c.active then { c with condition := some condition } else c

def setActive (c : Connection) (active : Bool) : Connection :=
  { c with condition := none, active }

def addExplanation (c : Connection) (explanation : String) : Connection :=
  { c with explanations := addDistinct c.explanations explanation }

def activity (c : Connection) (runtime : Option RuntimeSpec) : Activity :=
  match c.condition with
  | some condition => condition.evaluate runtime
  | none => if c.active then .active else .inactive

def isActive (c : Connection) (runtime : Option RuntimeSpec) : Bool :=
  (c.activity runtime).isActive

def isTargetActive (c : Connection) (runtime : Option RuntimeSpec) : Bool :=
  c.activity runtime == .active

def explanation? (c : Connection) : Option String :=
  if c.explanations.isEmpty then none else some (String.intercalate " " c.explanations)

end Connection
end ModuleLink
