import ModuleLink.Graph.Query

/-!
This module contains the search for the module that a re-exported binding comes from. A hop leads from an
export to the first of its targets with the highest priority; hops are followed until a module is
accepted.
-/

namespace ModuleLink

structure TargetSite where
  module : ModuleId
  /--
  The export path in `module`; `none` is its whole namespace.
  -/
  path : Option (List String)
  deferred : Bool
deriving DecidableEq, Repr, Inhabited

inductive FindTarget where
  | noTarget
  | notFound
  | circular
  | found (site : TargetSite)
deriving DecidableEq, Repr, Inhabited

def TargetSite.extend (inner : TargetSite) (rest : List String) (deferred : Bool) : TargetSite :=
  { inner with
    path := if rest.isEmpty then inner.path else some (inner.path.getD [] ++ rest)
    deferred := deferred && inner.deferred }

namespace Graph

def hop? (g : Graph) (r : RecordId) (requested : String) : Option TargetSite := do
  let record := g.exports.record r
  let target ← record.maxTargets.head?
  let connection ← g.connection? target.connection
  let path :=
    match target.path, record.name with
    | none, none => some [requested]
    | path, _ => path
  return { module := connection.target, path, deferred := connection.deferred }

/--
Follow hops from a record until `accept` takes a module. Each record is passed at most once, so that the number of
records bounds the number of hops.
-/
def follow (g : Graph) (accept : ModuleId → Bool) :
    Nat → RecordId → String → List RecordId → Except GraphError FindTarget
  | 0, _, _, _ => .ok .circular
  | n + 1, r, requested, visited =>
    match g.hop? r requested with
    | none => .ok .noTarget
    | some site =>
      if accept site.module then
        .ok (.found site)
      else
        match site.path with
        | none | some [] => .ok .notFound
        | some (first :: rest) => do
          let d ← g.descriptorOf site.module
          let next := g.exports.lookup d first
          if (r :: visited).contains next then
            return .circular
          match ← g.follow accept n next first (r :: visited) with
          | .noTarget | .notFound => return .notFound
          | .circular => return .circular
          | .found inner => return .found (inner.extend rest site.deferred)

def findTarget (g : Graph) (id : ModuleId) (name : String) (accept : ModuleId → Bool) :
    Except GraphError FindTarget := do
  let d ← g.descriptorOf id
  g.follow accept (g.exports.records.size + 1) (g.exports.lookup d name) name []

end Graph
end ModuleLink
