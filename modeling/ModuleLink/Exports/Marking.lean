import ModuleLink.Exports.Arena

/-!
This module contains the markings of whole descriptors: the end of an analysis, exports that cannot be
determined, and uses. A marking that reports whether it changed anything returns that as a second
component.
-/

namespace ModuleLink

structure StarTarget where
  key : DependencyId
  connection : ConnectionId
  priority : Int
deriving DecidableEq, Repr

namespace ExportRecord

def restrictMangle (r : ExportRecord) (canMangle : Bool) : ExportRecord × Bool :=
  if canMangle then (r, false) else r.setMangleProvide (some false)

def markUnknownProvided (r : ExportRecord) (canMangle : Bool) (exclude : List String)
    (target : Option StarTarget) : ExportRecord × Bool :=
  let name := r.name.getD ""
  let (r, mangled) := r.restrictMangle canMangle
  if exclude.contains name then
    (r, mangled)
  else
    let (r, provided) := r.setProvided .maybeProvided
    let r :=
      match target with
      | none => r
      | some t => (r.setTarget t.key ⟨t.connection, some [name], -1⟩).1
    (r, mangled || provided)

def markOtherProvided (r : ExportRecord) (canMangle : Bool) (target : Option StarTarget) :
    ExportRecord × Bool :=
  let (r, provided) := r.setProvided .maybeProvided
  let (r, mangled) := r.restrictMangle canMangle
  let r :=
    match target with
    | none => r
    | some t => (r.setTarget t.key ⟨t.connection, none, t.priority⟩).1
  (r, provided || mangled)

end ExportRecord

namespace Arena

/--
Every record that a lookup through `d` can end in, and those that are shadowed on the way: the listed records of each
descriptor, then the catch-all record in force.
-/
def scope (a : Arena) (d : DescriptorId) : List RecordId :=
  (a.chain d).flatMap a.locals ++ [a.other d]

def markHasProvideInfo (a : Arena) (d : DescriptorId) : Arena :=
  (a.scope d).foldl (fun a r => a.modifyRecord r ExportRecord.completeProvision) a

/--
The records that the end of a usage analysis of `d` concerns: listed records with the descriptors that they own, the
side-effects record, and the same for the redirect. `none` if that goes round in a circle, as it does when an owned
descriptor redirects to a descriptor that holds its owner. The descriptors on a path without a circle are all different,
so their number bounds its length.
-/
def usageScope? (a : Arena) (d : DescriptorId) : Option (List RecordId) :=
  go a.descriptors.size d
where
  go : Nat → DescriptorId → Option (List RecordId)
    | 0, _ => none
    | n + 1, d => do
      let nested ← ((a.locals d).filterMap fun r => (a.record r).ownedNested).mapM (go n)
      let rest ←
        match (a.descriptor d).redirect with
        | some e => go n e
        | none => some [(a.descriptor d).other]
      return a.locals d ++ nested.flatten ++ [(a.descriptor d).sideEffects] ++ rest

def markHasUseInfo? (a : Arena) (d : DescriptorId) : Option Arena :=
  (a.usageScope? d).map fun rs => rs.foldl (fun a r => a.modifyRecord r ExportRecord.completeUsage) a

/--
The exports of `d` cannot be determined, except for those in `exclude`; where a target is given, they are those of
another module.
-/
def markUnknownProvidedWith (a : Arena) (d : DescriptorId) (canMangle : Bool)
    (exclude : List String) (target : Option StarTarget) : Arena × Bool :=
  let (a, changed) := (a.chain d).foldl (fun (a, changed) e =>
    let a := exclude.foldl (fun a name => (a.getOrCreate e name).1) a
    let (a, c) := a.updateRecords (a.locals e) (·.markUnknownProvided canMangle exclude target)
    (a, changed || c)) (a, false)
  let (a, c) := a.updateRecord (a.other d) (·.markOtherProvided canMangle target)
  (a, changed || c)

def markUnknownProvided (a : Arena) (d : DescriptorId) (canMangle : Bool) : Arena × Bool :=
  a.markUnknownProvidedWith d canMangle [] none

def markUsedUnknownWay (a : Arena) (d : DescriptorId) : Arena × Bool :=
  a.updateRecords (a.scope d) ExportRecord.setUsedInUnknownWay

def markAllKnownUsed (a : Arena) (d : DescriptorId) : Arena × Bool :=
  a.updateRecords (a.locals d) fun r =>
    if r.provided = .provided then r.setUsed .used else (r, false)

def markUsedForSideEffects (a : Arena) (d : DescriptorId) : Arena × Bool :=
  a.updateRecord (a.descriptor d).sideEffects (·.setUsedUpTo .unused .used)

/--
The export at `path` is used. Segments that have a descriptor of their properties are followed, and of them only
properties are used; an empty path is a use of the whole module that cannot be followed.
-/
def markExportUsed (a : Arena) (d : DescriptorId) (path : List String) (state : Usage) :
    Arena × Bool :=
  match path with
  | [] => a.markUsedUnknownWay d
  | first :: rest =>
    let (a, r) := a.getOrCreate d first
    match if rest.isEmpty then none else (a.record r).nested with
    | none => a.updateRecord r (·.setUsed state)
    | some e =>
      let (a, outer) := a.updateRecord r (·.setUsedUpTo .unused .propertiesUsed)
      let (a, inner) := a.markExportUsed e rest state
      (a, inner || outer)

end Arena
end ModuleLink
