import ModuleLink.Binding.Basic
import ModuleLink.Graph.Target
import ModuleLink.PropertyAccess
import ModuleLink.Rename.Table

/-!
This module contains the resolution of references: an export path that is asked of a module of the merge
set is followed through re-exports to the binding that it denotes.
-/

namespace ModuleLink

structure Linker where
  graph : Graph
  set : MergeSet
  names : NameTable
  propertyComments : Bool := true
deriving Inhabited

structure Resolution where
  result : Except LinkError Binding
  need : Option Need := none

inductive ShapeStep where
  | done (resolution : Resolution)
  | lookup (path : List String)

namespace Linker

def objectName (l : Linker) (id : ModuleId) (pick : ModuleNames → Option String) (what : String) :
    Except LinkError String :=
  match (l.names.module? id).bind pick with
  | some name => .ok name
  | none => .error (.missingName id ("<" ++ what ++ ">"))

def rawBinding (id : ModuleId) (text : String) (ids path : List String) (deferred : Bool) : Binding :=
  { module := id, base := .raw text none, ids, path, deferred }

def marker (id : ModuleId) (text : String) (ids path : List String) (deferred : Bool) : Resolution :=
  { result := .ok (rawBinding id text ids path deferred) }

def neededName (l : Linker) (kind : NeededKind) (id : ModuleId) : Except LinkError String :=
  match kind with
  | .namespaceObject => l.objectName id (·.namespaceObject) "namespace object"
  | .interopNamespace => l.objectName id (·.interopNamespace) "interop namespace"
  | .interopNamespace2 => l.objectName id (·.interopNamespace2) "interop namespace"
  | .interopDefault => l.objectName id (·.interopDefault) "interop default"

def provided (l : Linker) (kind : NeededKind) (id : ModuleId) (ids path : List String)
    (deferred : Bool) : Resolution :=
  { result := (l.neededName kind id).map fun name => rawBinding id name ids path deferred
    need := some ⟨kind, id⟩ }

def defaultAccess (site : ReferenceSite) (accessor : String) : String :=
  if site.asCall then accessor ++ "()"
  else
    match site.asiSafe with
    | some true => "(" ++ accessor ++ "())"
    | some false => ";(" ++ accessor ++ "())"
    | none => accessor ++ ".a"

def shapeStep (l : Linker) (shape : ExportShape) (id : ModuleId) (path : List String)
    (deferred : Bool) (site : ReferenceSite) : ShapeStep :=
  match shape, path with
  | .namespaceOnly, path => .lookup path
  | .dynamic, [] => .lookup []
  | .defaultOnly, [] => .done (l.provided .interopNamespace2 id [] [] deferred)
  | .defaultWithNamed, [] => .done (l.provided .interopNamespace id [] [] deferred)
  | .defaultWithNamed, first :: rest =>
    if first = "default" then .lookup rest
    else if first = Graph.conversionFlag then
      .done (marker id conversionFlagMarker rest path deferred)
    else .lookup path
  | .defaultOnly, first :: rest =>
    if first = Graph.conversionFlag then
      .done (marker id conversionFlagMarker rest rest deferred)
    else if first = "default" then .lookup rest
    else .done (marker id nonDefaultImport rest rest deferred)
  | .dynamic, first :: rest =>
    if first = "default" then
      .done
        { result := (l.neededName .interopDefault id).map fun accessor =>
            rawBinding id (defaultAccess site accessor) rest rest deferred
          need := some ⟨.interopDefault, id⟩ }
    else if first = Graph.conversionFlag then
      .done (marker id conversionFlagMarker rest path deferred)
    else .lookup path

def wholeModule (l : Linker) (e : MergeEntry) (id : ModuleId) (deferred : Bool) : Resolution :=
  match e with
  | .concatenated _ => l.provided .namespaceObject id [] [] deferred
  | .external x =>
    { result := (l.objectName id (·.externalName) "external binding").map fun name =>
        rawBinding id name [] [] (deferred && x.deferred) }

def externalExport (l : Linker) (x : External) (id : ModuleId) (d : DescriptorId)
    (first : String) (rest : List String) (deferred : Bool) : Resolution :=
  let path := first :: rest
  let deferred := deferred && x.deferred
  match l.graph.exports.outputPath? d path with
  | none => marker id unusedExport rest path deferred
  | some used =>
    { result := (l.objectName id (·.externalName) "external binding").map fun name =>
        { module := id
          base := .raw name
            (if used ≠ path ∧ l.propertyComments then
              some (blockComment (String.intercalate "." path))
            else
              none)
          ids := used
          path
          deferred } }

structure NextHop where
  module : ModuleId
  path : List String
  strict : Bool
  deferred : Bool

/--
The binding of an export of a member: a local symbol or an expression that holds it, or else the place that it is
re-exported from.
-/
def memberExport (l : Linker) (m : Member) (id : ModuleId) (d : DescriptorId)
    (first : String) (rest : List String) (deferred : Bool) : Resolution ⊕ NextHop :=
  let path := first :: rest
  let a := l.graph.exports
  if (a.record (a.lookup d first)).provided = .notProvided then
    .inl (l.provided .namespaceObject id path path deferred)
  else if let some symbol := m.exports.get? first then
    match a.outputPath? d path with
    | none => .inl (marker id unusedExport rest path deferred)
    | some used =>
      .inl { result := .ok { module := id, base := .symbol symbol, ids := used.drop 1, path, deferred } }
  else if let some expression := m.rawExports.get? first then
    .inl (marker id expression rest path deferred)
  else
    match l.graph.findTarget id first l.set.contains with
    | .error e => .inl { result := .error (.graph e) }
    | .ok .notFound =>
      .inl { result := .error (.unresolvableReexport id path l.set.memberNames) }
    | .ok .circular => .inl (marker id circularReexport [] path deferred)
    | .ok (.found site) =>
      match l.graph.module id with
      | .error e => .inl { result := .error (.graph e) }
      | .ok module =>
        .inr
          { module := site.module
            path := site.path.getD [] ++ rest
            strict := module.buildMeta.strict
            deferred := deferred && site.deferred }
    | .ok .noTarget =>
      if m.namespaceSymbol.isSome then
        .inl { result := (l.objectName id (·.namespaceObject) "namespace object").map fun name =>
          rawBinding id name ((a.outputPath? d path).getD path) path deferred }
      else
        .inl { result := .error (.unknownExport id path) }

/--
Resolve a path that is asked of a module, up to the next hop. `visited` are the descriptors that were looked at, each
with the name that was looked up: coming back to one is a circle. A hop adds to them.
-/
def advance (l : Linker) (site : ReferenceSite) (visited : List (DescriptorId × String)) (hop : NextHop) :
    Resolution ⊕ (DescriptorId × String) × NextHop :=
  match l.set.get? hop.module with
  | none => .inl { result := .error (.notInMergeSet hop.module) }
  | some e =>
    match l.graph.shape hop.module hop.strict with
    | .error e => .inl { result := .error (.graph e) }
    | .ok shape =>
      match l.shapeStep shape hop.module hop.path hop.deferred site with
      | .done resolution => .inl resolution
      | .lookup [] => .inl (l.wholeModule e hop.module hop.deferred)
      | .lookup (first :: rest) =>
        match l.graph.descriptorOf hop.module with
        | .error e => .inl { result := .error (.graph e) }
        | .ok d =>
          if visited.contains (d, first) then
            .inl (marker hop.module circularReexport [] (first :: rest) hop.deferred)
          else
            match e with
            | .external x => .inl (l.externalExport x hop.module d first rest hop.deferred)
            | .concatenated m =>
              match l.memberExport m hop.module d first rest hop.deferred with
              | .inl resolution => .inl resolution
              | .inr next => .inr ((d, first), next)

/--
Resolve a path that is asked of a module, hop by hop. Every hop adds to `visited`, so that `fuel` bounds the number of
hops if it is large enough.
-/
def follow (l : Linker) (site : ReferenceSite) :
    Nat → List (DescriptorId × String) → NextHop → Resolution
  | 0, _, hop => marker hop.module circularReexport [] hop.path hop.deferred
  | fuel + 1, visited, hop =>
    match l.advance site visited hop with
    | .inl resolution => resolution
    | .inr (seen, next) => l.follow site fuel (seen :: visited) next

/--
Resolve a path that is asked of a module. The names that are looked up on the way are segments of the path or of
re-export targets, so that their number, times the number of descriptors, bounds the number of hops.
-/
def resolve (l : Linker) (id : ModuleId) (path : List String) (site : ReferenceSite) : Resolution :=
  let a := l.graph.exports
  l.follow site (a.descriptors.size * (path.length + a.targetNames.length) + 1) []
    { module := id, path, strict := site.strict, deferred := site.deferred }

end Linker
end ModuleLink
