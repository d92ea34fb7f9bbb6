import ModuleLink.Merge.Basic

/-!
This module contains the names that are visible where a binding is referred to: those are not available
for the binding, since an inner declaration would capture it.
-/

namespace ModuleLink

structure Visibility where
  names : List String := []
  checked : List (ModuleId × ScopeId) := []
deriving Repr, Inhabited

namespace Visibility

/--
Walk from a scope of `owner` outwards to the scope of the module, and stop early at a scope that was walked through
before. No scope is passed twice, so that their number bounds the walk.
-/
def addScopeChain (v : Visibility) (owner : ModuleId) (scope : ModuleScope) (start : ScopeId) :
    Visibility :=
  go (scope.scopes.size + 1) v start
where
  go : Nat → Visibility → ScopeId → Visibility
    | 0, v, _ => v
    | n + 1, v, id =>
      if id = scope.moduleScope ∨ v.checked.contains (owner, id) then
        v
      else
        let v := { v with checked := (owner, id) :: v.checked }
        match scope.scope? id with
        | none => v
        | some s =>
          let v := { v with names := v.names ++ s.names }
          match s.upper with
          | none => v
          | some up => go n v up

def addReferences (v : Visibility) (owner : ModuleId) (scope : ModuleScope)
    (references : List ScopeId) : Visibility :=
  references.foldl (fun v r => v.addScopeChain owner scope r) v

end Visibility

abbrev VisibilityMap := Dict (ModuleId × ImportedBinding) Visibility

namespace VisibilityMap

def addReferences (m : VisibilityMap) (target : ModuleId) (binding : ImportedBinding)
    (owner : Member) (references : List ScopeId) : VisibilityMap :=
  Dict.insert m (target, binding)
    (((Dict.get? m (target, binding)).getD {}).addReferences owner.module owner.scope references)

def visibleNames (m : VisibilityMap) (module : ModuleId) (binding : ImportedBinding) : List String :=
  ((Dict.get? m (module, binding)).map (·.names)).getD []

end VisibilityMap

namespace MergeSet

/--
The binding by which an import is referred to; an external module is only referred to as a whole.
-/
def importedAs? (s : MergeSet) (i : ImportReference) : Option ImportedBinding :=
  match s.get? i.target with
  | some (.concatenated _) => some i.binding
  | some (.external _) => some .module
  | none => none

def addImportVisibility (s : MergeSet) (m : Member) (v : VisibilityMap) (i : ImportReference) : VisibilityMap :=
  match s.importedAs? i with
  | none => v
  | some binding => v.addReferences i.target binding m i.references

def addMemberVisibility (s : MergeSet) (v : VisibilityMap) (m : Member) : VisibilityMap :=
  let v := m.scope.declarations.foldl
    (fun v d => v.addReferences m.module (.symbol d.name) m d.references) v
  m.scope.imports.foldl (s.addImportVisibility m) v

def visibility (s : MergeSet) : VisibilityMap :=
  s.members.foldl s.addMemberVisibility .empty

end MergeSet
end ModuleLink
