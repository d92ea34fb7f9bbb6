import ModuleLink.Graph.Query
import ModuleLink.Merge.Basic

/-!
This module contains the merge set of a root module in a module graph. The imports of each member are
walked through in order, and a module is listed after the modules that it imports.
-/

namespace ModuleLink

structure Import where
  target : ModuleId
  /--
  The runtimes of the import; `none` for all runtimes of the merge set.
  -/
  condition : Option RuntimeSpec
  deferred : Bool
deriving DecidableEq, Repr

/--
The runtimes among those of `runtime` in which a connection carries bindings: `none` if there are none, `some none` if
it does in all.
-/
def Connection.importCondition? (c : Connection) (runtime : Option RuntimeSpec) :
    Option (Option RuntimeSpec) :=
  if !c.isTargetActive runtime then
    none
  else if !c.isConditional then
    some none
  else
    match runtime with
    | none => some none
    | some spec =>
      let active := spec.names.filter fun name => c.isTargetActive (some (.single name))
      if active.length = spec.names.length then some none else some (some (.ofNames active))

namespace Graph

def isOwnImport (id : ModuleId) (c : Connection) : Bool :=
  c.dependency.isSome && c.resolvedOrigin == some id

def imports (g : Graph) (runtime : Option RuntimeSpec) (id : ModuleId) :
    Except GraphError (List Import) := do
  let connections ← g.outgoing id
  let imports := connections.foldl (fun (imports : Dict ModuleId (Option RuntimeSpec × Bool)) c =>
    if isOwnImport id c then
      match c.importCondition? runtime with
      | none => imports
      | some condition =>
        match imports.get? c.target with
        | none => imports.insert c.target (condition, c.deferred)
        | some (existing, deferred) =>
          imports.insert c.target
            (RuntimeSpec.mergeCondition existing condition, deferred && c.deferred)
    else
      imports) .empty
  return imports.entries.map fun (target, condition, deferred) => ⟨target, condition, deferred⟩

end Graph

/--
The state of a walk through the imports of the members: those that were not reached yet, and those that were.
-/
structure Walk extends EntryTable where
  pending : Dict ModuleId Member
  entered : List ModuleId

namespace Walk

def push (w : Walk) (e : MergeEntry) : Walk := { w with toEntryTable := w.toEntryTable.push e }

def mergeExternal (i : Import) : MergeEntry → MergeEntry
  | .external e =>
    .external { e with
      condition := RuntimeSpec.mergeCondition e.condition i.condition
      deferred := e.deferred && i.deferred }
  | .concatenated m => .concatenated m

def addExternal (w : Walk) (i : Import) : Walk :=
  match w.index.get? i.target with
  | some n => { w with entries := w.entries.modify n (mergeExternal i) }
  | none => w.push (.external ⟨i.target, i.condition, i.deferred⟩)

/--
Follow an import. A member is listed after all that it imports. Every member is entered once, so that their number
bounds the depth of the walk.
-/
def enter (g : Graph) (runtime : Option RuntimeSpec) :
    Nat → Walk → Import → Except LinkError Walk
  | fuel, w, i =>
    if w.entered.contains i.target then
      .ok w
    else
      match w.pending.get? i.target, fuel with
      | none, _ => .ok (w.addExternal i)
      | some _, 0 => .ok w
      | some member, n + 1 =>
        if i.condition.isSome then
          .error (.conditionalMember i.target)
        else do
          let imports ← LinkError.ofGraph (g.imports runtime i.target)
          let w ← imports.foldlM (enter g runtime n)
            { w with pending := w.pending.erase i.target, entered := i.target :: w.entered }
          return w.push (.concatenated member)

end Walk

/--
The merge set of `root`, in which the given members are inlined. All of them have to be reachable from the root; modules
that they import and that are not among them are external.
-/
def MergeSet.ofGraph (g : Graph) (root : ModuleId) (members : List Member)
    (runtime : Option RuntimeSpec) : Except LinkError MergeSet := do
  let members := Dict.ofList (members.map fun m => (m.module, m))
  match members.get? root with
  | none => throw (.notInMergeSet root)
  | some rootMember =>
    let imports ← LinkError.ofGraph (g.imports runtime root)
    let w ← imports.foldlM (Walk.enter g runtime members.size)
      { pending := members.erase root, entered := [root] }
    if w.pending.isEmpty then
      return { w.push (.concatenated rootMember) with root, runtime }
    else
      throw (.unreachableMembers root (w.pending.keys.mergeSort fun a b => (compare a b).isLE))

end ModuleLink
