import ModuleLink.Connection
import ModuleLink.Data.Dict
import ModuleLink.Exports.State

/-!
This module contains the record that is kept per export: usage, provision, permission to shorten the
name, and the places that the binding is re-exported from. An operation that reports whether it
changed anything returns that as a second component.
-/

namespace ModuleLink

structure DescriptorId where
  index : Nat
deriving DecidableEq, Repr, Inhabited

structure RecordId where
  index : Nat
deriving DecidableEq, Repr, Inhabited

def DescriptorId.render (d : DescriptorId) : String := "exports#" ++ toString d.index

def RecordId.render (r : RecordId) : String := "export#" ++ toString r.index

structure ExportTarget where
  connection : ConnectionId
  /--
  The export path in the target module. `none` is the whole namespace, and on a catch-all record the requested name.
  -/
  path : Option (List String)
  priority : Int
deriving DecidableEq, Repr, Inhabited

structure ExportRecord where
  /--
  `none` for records that stand for no single export.
  -/
  name : Option String := none
  used : Usage := .noInfo
  provided : Provision := .undetermined
  mangleProvide : Option Bool := none
  mangleUse : Option Bool := none
  outputName : OutputName := .kept
  terminal : Bool := false
  targets : Dict DependencyId ExportTarget := .empty
  nested : Option DescriptorId := none
  nestedOwned : Bool := false
deriving DecidableEq, Repr, Inhabited

namespace ExportRecord

def seeded (name : String) (catchAll : ExportRecord) : ExportRecord :=
  { catchAll with
    name := some name
    targets := catchAll.targets.mapValues fun _ t => { t with path := t.path.or (some [name]) }
    nested := none
    nestedOwned := false }

def ownedNested (r : ExportRecord) : Option DescriptorId :=
  if r.nestedOwned then r.nested else none

def canMangle (r : ExportRecord) : Option Bool := ModuleLink.canMangle r.mangleProvide r.mangleUse

def isVirtual (r : ExportRecord) : Bool := r.outputName == .virtual

def setUsed (r : ExportRecord) (state : Usage) : ExportRecord × Bool :=
  ({ r with used := r.used.promote state }, decide (r.used < state))

def setUsedIf (r : ExportRecord) (condition : Usage → Bool) (state : Usage) : ExportRecord × Bool :=
  if condition r.used then r.setUsed state else (r, false)

def setUsedUpTo (r : ExportRecord) (bound state : Usage) : ExportRecord × Bool :=
  r.setUsedIf (fun current => decide (current ≤ bound)) state

/--
The export is consumed in a way that cannot be followed, so that its name must stay.
-/
def setUsedInUnknownWay (r : ExportRecord) : ExportRecord × Bool :=
  ({ r with used := r.used.promote .unknown, mangleUse := some false },
    decide (r.used < .unknown) || r.mangleUse != some false)

def setProvided (r : ExportRecord) (state : Provision) : ExportRecord × Bool :=
  ({ r with provided := r.provided.promote state }, r.provided.moves state)

def setMangleProvide (r : ExportRecord) (value : Option Bool) : ExportRecord × Bool :=
  ({ r with mangleProvide := value }, r.mangleProvide != value)

def setMangleUse (r : ExportRecord) (value : Option Bool) : ExportRecord × Bool :=
  ({ r with mangleUse := value }, r.mangleUse != value)

def completeProvision (r : ExportRecord) : ExportRecord :=
  { r with
    provided := if r.provided = .undetermined then .notProvided else r.provided
    mangleProvide := r.mangleProvide.or (some true) }

def completeUsage (r : ExportRecord) : ExportRecord :=
  { r with used := r.used.promote .unused, mangleUse := r.mangleUse.or (some true) }

/--
The segment of the export in the output, given the requested name: `none` if it is unused, and `some none` if it has no
segment.
-/
def outputSegment? (r : ExportRecord) (requested : String) : Option (Option String) :=
  if r.used = .unused then
    none
  else
    match r.outputName with
    | .virtual => some none
    | .renamed name => some (some name)
    | .kept => some (some (r.name.getD requested))

def setTarget (r : ExportRecord) (key : DependencyId) (target : ExportTarget) :
    ExportRecord × Bool :=
  if r.targets.get? key = some target then
    (r, false)
  else
    ({ r with targets := r.targets.insert key target }, true)

def unsetTarget (r : ExportRecord) (key : DependencyId) : ExportRecord × Bool :=
  ({ r with targets := r.targets.erase key }, r.targets.contains key)

def maxTargets (r : ExportRecord) : List ExportTarget :=
  r.targets.values.filter fun t => r.targets.values.all fun u => decide (u.priority ≤ t.priority)

end ExportRecord
end ModuleLink
