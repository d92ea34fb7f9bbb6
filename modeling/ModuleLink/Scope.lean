import ModuleLink.Data.Distinct
import ModuleLink.ModuleId

/-!
This module contains the lexical scopes of a module: its nested scopes, its top-level declarations with
the scopes that refer to them, the bindings that it reads from other modules, and the free names that it
reads. Links between scopes are taken as they come and may be dangling or cyclic.
-/

namespace ModuleLink

def defaultExportSymbol : String := "__FOB_DEFAULT_EXPORT__"

def namespaceObjectSymbol : String := "__FOB_NAMESPACE_OBJECT__"

structure ScopeId where
  index : Nat
deriving DecidableEq, Repr, Inhabited

structure Scope where
  upper : Option ScopeId
  names : List String
deriving DecidableEq, Repr, Inhabited

structure Declaration where
  name : String
  references : List ScopeId
deriving DecidableEq, Repr, Inhabited

inductive ImportedBinding where
  | symbol (name : String)
  | module
deriving DecidableEq, Repr, Inhabited

structure ImportReference where
  target : ModuleId
  binding : ImportedBinding
  references : List ScopeId
deriving DecidableEq, Repr, Inhabited

structure ModuleScope where
  scopes : Array Scope := #[⟨none, []⟩]
  moduleScope : ScopeId := ⟨0⟩
  declarations : List Declaration := []
  imports : List ImportReference := []
  globals : List String := []
deriving DecidableEq, Repr, Inhabited

namespace ModuleScope

def scope? (s : ModuleScope) (id : ScopeId) : Option Scope := s.scopes[id.index]?

def upper? (s : ModuleScope) (id : ScopeId) : Option ScopeId := (s.scope? id).bind (·.upper)

def addScope (s : ModuleScope) (upper : Option ScopeId) (names : List String) : ModuleScope :=
  { s with scopes := s.scopes.push ⟨upper, names⟩ }

/--
Apply `f` to the first element that `p` takes; if there is none, add `a` at the end.
-/
def modifyOrAdd {α : Type} (p : α → Bool) (f : α → α) (a : α) : List α → List α
  | [] => [a]
  | b :: bs => if p b then f b :: bs else b :: modifyOrAdd p f a bs

/--
Declare a top-level name. A second declaration of a name adds to its references.
-/
def declare (s : ModuleScope) (name : String) (references : List ScopeId) : ModuleScope :=
  { s with
    scopes := s.scopes.modify s.moduleScope.index fun scope =>
      { scope with names := addDistinct scope.names name }
    declarations := modifyOrAdd (·.name == name)
      (fun d => { d with references := d.references ++ references }) ⟨name, references⟩
      s.declarations }

/--
Record where a binding of another module is read; the references of a binding are collected.
-/
def referenceImport (s : ModuleScope) (target : ModuleId) (binding : ImportedBinding)
    (references : List ScopeId) : ModuleScope :=
  { s with
    imports := modifyOrAdd (fun i => i.target == target && i.binding == binding)
      (fun i => { i with references := i.references ++ references })
      ⟨target, binding, references⟩ s.imports }

def addGlobal (s : ModuleScope) (name : String) : ModuleScope :=
  { s with globals := addDistinct s.globals name }

def declaration? (s : ModuleScope) (name : String) : Option Declaration :=
  s.declarations.find? (·.name == name)

end ModuleScope
end ModuleLink
