import ModuleLink.ModuleId
import ModuleLink.Data.Distinct

/-!
This module contains bindings, which are what a reference to an export becomes in the merged scope, and
the objects that the merged scope has to provide for them.
-/

namespace ModuleLink

/--
Stands for a re-export that leads back to itself; it throws when it is evaluated.
-/
def circularReexport : String := "/* circular reexport */ Object(function x() \x7b x() \x7d())"

def unusedExport : String := "/* unused export */ undefined"

def conversionFlagMarker : String := "/* __esModule */true"

def nonDefaultImport : String := "/* non-default import from default-exporting module */undefined"

inductive BindingBase where
  | raw (text : String) (comment : Option String)
  | symbol (name : String)
deriving DecidableEq, Repr, Inhabited

structure Binding where
  module : ModuleId
  base : BindingBase
  ids : List String
  path : List String
  deferred : Bool
deriving DecidableEq, Repr, Inhabited

structure ReferenceSite where
  asCall : Bool := false
  callContext : Bool := false
  strict : Bool := false
  asiSafe : Option Bool := none
  deferred : Bool := false
deriving DecidableEq, Repr, Inhabited

inductive NeededKind where
  | namespaceObject
  | interopNamespace
  | interopNamespace2
  | interopDefault
deriving DecidableEq, Repr, Inhabited

structure Need where
  kind : NeededKind
  module : ModuleId
deriving DecidableEq, Repr

structure NeededObjects where
  namespaceObjects : List ModuleId := []
  interopNamespaces : List ModuleId := []
  interopNamespaces2 : List ModuleId := []
  interopDefaults : List ModuleId := []
deriving DecidableEq, Repr, Inhabited

namespace NeededObjects

def isEmpty (n : NeededObjects) : Bool :=
  n.namespaceObjects.isEmpty && n.interopNamespaces.isEmpty && n.interopNamespaces2.isEmpty &&
    n.interopDefaults.isEmpty

def add (n : NeededObjects) (need : Need) : NeededObjects :=
  match need.kind with
  | .namespaceObject =>
    { n with namespaceObjects := addDistinct n.namespaceObjects need.module }
  | .interopNamespace =>
    { n with interopNamespaces := addDistinct n.interopNamespaces need.module }
  | .interopNamespace2 =>
    { n with interopNamespaces2 := addDistinct n.interopNamespaces2 need.module }
  | .interopDefault => { n with interopDefaults := addDistinct n.interopDefaults need.module }

end NeededObjects
end ModuleLink
