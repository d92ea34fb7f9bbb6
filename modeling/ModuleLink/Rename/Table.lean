import ModuleLink.Graph.Query
import ModuleLink.Rename.Candidate
import ModuleLink.Rename.Visibility

/-!
This module contains the allocation of names for a merged scope. Entry by entry, the declarations of a
module keep their names where possible and get new ones otherwise; then the objects that the module may
need besides are named. A name that was given is not given again.
-/

namespace ModuleLink

structure NameOptions where
  reservedNames : List String := []
  namespaceObjectName : String := "namespaceObject"
deriving DecidableEq, Repr

structure ModuleNames where
  internal : Dict String String := .empty
  namespaceObject : Option String := none
  externalName : Option String := none
  interopNamespace : Option String := none
  interopNamespace2 : Option String := none
  interopDefault : Option String := none
deriving DecidableEq, Repr, Inhabited

namespace ModuleNames

def synthesized (n : ModuleNames) : List String :=
  [n.namespaceObject, n.externalName, n.interopNamespace, n.interopNamespace2,
    n.interopDefault].reduceOption

end ModuleNames

structure NameTable where
  modules : Dict ModuleId ModuleNames := .empty
deriving DecidableEq, Repr, Inhabited

namespace NameTable

def module? (t : NameTable) (id : ModuleId) : Option ModuleNames := t.modules.get? id

def internalName? (t : NameTable) (id : ModuleId) (symbol : String) : Option String :=
  (t.module? id).bind fun n => n.internal.get? symbol

def symbols (t : NameTable) : List (ModuleId × String × String) :=
  t.modules.entries.flatMap fun (id, n) => n.internal.entries.map fun (symbol, name) => (id, symbol, name)

def topLevel (t : NameTable) : List String :=
  distinct (t.modules.values.flatMap fun n => n.internal.values ++ n.synthesized)

end NameTable

namespace NameOptions

def reserved (o : NameOptions) : List String :=
  ModuleLink.reservedNames ++ [defaultExportSymbol, namespaceObjectSymbol] ++ o.reservedNames

def allocateName (o : NameOptions) (allocated visible : List String) (readable old : String) :
    String × List String :=
  let name := findNewName o.namespaceObjectName old ⟨allocated, visible⟩ readable
  (name, name :: allocated)

def nameDeclaration (o : NameOptions) (allocated visible : List String) (readable name : String) :
    String × List String :=
  if allocated.contains name || visible.contains name then
    o.allocateName allocated visible readable name
  else
    (name, name :: allocated)

def declarationVisible (v : VisibilityMap) (m : Member) (name : String) : List String :=
  let own := v.visibleNames m.module (.symbol name)
  if m.namespaceSymbol = some name then own ++ v.visibleNames m.module .module else own

def nameDeclarations (o : NameOptions) (v : VisibilityMap) (m : Member) (readable : String)
    (allocated : List String) : Dict String String × List String :=
  m.scope.declarations.foldl (fun (internal, allocated) d =>
    let (name, allocated) :=
      o.nameDeclaration allocated (declarationVisible v m d.name) readable d.name
    (internal.insert d.name name, allocated)) (.empty, allocated)

/--
Name what is needed to refer to an entry: its declarations, its namespace object or itself.
-/
def nameEntry (o : NameOptions) (v : VisibilityMap) (e : MergeEntry) (readable : String)
    (allocated : List String) : Except LinkError (ModuleNames × List String) :=
  let whole := v.visibleNames e.module .module
  match e with
  | .concatenated m =>
    let (internal, allocated) := o.nameDeclarations v m readable allocated
    match m.namespaceSymbol with
    | none =>
      let (name, allocated) := o.allocateName allocated whole readable namespaceObjectSymbol
      .ok ({ internal, namespaceObject := some name }, allocated)
    | some symbol =>
      match internal.get? symbol with
      | none => .error (.missingName m.module symbol)
      | some name => .ok ({ internal, namespaceObject := some name }, allocated)
  | .external _ =>
    let (name, allocated) := o.allocateName allocated whole readable defaultExportSymbol
    .ok ({ externalName := some name }, allocated)

def allocateIf (o : NameOptions) (needed : Bool) (allocated visible : List String)
    (readable old : String) : Option String × List String :=
  if needed then
    let (name, allocated) := o.allocateName allocated visible readable old
    (some name, allocated)
  else
    (none, allocated)

def nameInterop (o : NameOptions) (shapes : List ExportShape) (visible : List String)
    (readable : String) (names : ModuleNames) (allocated : List String) :
    ModuleNames × List String :=
  let (interopNamespace, allocated) := o.allocateIf (shapes.contains .defaultWithNamed) allocated
    visible readable namespaceObjectSymbol
  let (interopNamespace2, allocated) := o.allocateIf (shapes.contains .defaultOnly) allocated
    visible readable (o.namespaceObjectName ++ "2")
  let (interopDefault, allocated) := o.allocateIf (shapes.contains .dynamic) allocated
    visible readable "default"
  ({ names with interopNamespace, interopNamespace2, interopDefault }, allocated)

def allocateEntry (o : NameOptions) (g : Graph) (v : VisibilityMap)
    (state : NameTable × List String) (e : MergeEntry) :
    Except LinkError (NameTable × List String) := do
  let (table, allocated) := state
  let readable := (← LinkError.ofGraph (g.module e.module)).readable
  let (names, allocated) ← o.nameEntry v e readable allocated
  let lenient ← LinkError.ofGraph (g.shape e.module false)
  let strict ← LinkError.ofGraph (g.shape e.module true)
  let (names, allocated) := o.nameInterop [lenient, strict] (v.visibleNames e.module .module)
    readable names allocated
  return (⟨table.modules.insert e.module names⟩, allocated)

/--
Name all entries of a merge set. Free names that the members read are taken from the start.
-/
def allocate (o : NameOptions) (g : Graph) (s : MergeSet) : Except LinkError NameTable := do
  let taken := o.reserved ++ s.members.flatMap (·.scope.globals)
  let (table, _) ← s.entries.foldlM (o.allocateEntry g s.visibility) ({}, taken)
  return table

end NameOptions
end ModuleLink
