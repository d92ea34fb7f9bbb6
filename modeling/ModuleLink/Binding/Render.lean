import ModuleLink.Binding.Resolve

/-!
This module contains the source text of bindings.
-/

namespace ModuleLink.Linker

def reference (l : Linker) (b : Binding) : Except LinkError String :=
  match b.base with
  | .raw text comment => .ok (text ++ comment.getD "" ++ propertyAccess b.ids)
  | .symbol name =>
    match l.names.internalName? b.module name with
    | some final => .ok (final ++ propertyAccess b.ids)
    | none => .error (.missingName b.module name)

def withoutReceiver (site : ReferenceSite) (reference : String) : String :=
  match site.asiSafe with
  | some true => "(0," ++ reference ++ ")"
  | some false => ";(0," ++ reference ++ ")"
  | none => "/*#__PURE__*/Object(" ++ reference ++ ")"

/--
The source text of a binding. A call of a property does not get the owner of the property.
-/
def render (l : Linker) (b : Binding) (site : ReferenceSite) : Except LinkError String :=
  (l.reference b).map fun text =>
    if !b.ids.isEmpty && site.asCall && !site.callContext then withoutReceiver site text else text

def finalName (l : Linker) (id : ModuleId) (path : List String) (site : ReferenceSite) :
    Except LinkError String :=
  match (l.resolve id path site).result with
  | .ok b => l.render b site
  | .error e => .error e

end ModuleLink.Linker
