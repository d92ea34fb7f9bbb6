import ModuleLink.Binding.Basic
import ModuleLink.Exchange.Basic
import ModuleLink.Options
import ModuleLink.Merge.Basic

/-!
This module contains the exchange forms of scopes, merge sets, name tables, bindings and options.
-/

namespace ModuleLink

instance : ToValue Declaration where
  toValue d := .map [("name", toValue d.name), ("references", toValue d.references)]

instance : ToValue ImportedBinding where
  toValue
    | .module => .string "Module"
    | .symbol name => .map [("Symbol", .string name)]

instance : OfValue ImportedBinding where
  ofValue?
    | .string "Module" => some .module
    | .map [("Symbol", .string name)] => some (.symbol name)
    | _ => none

instance : ToValue ImportReference where
  toValue i := .map
    [("target", toValue i.target), ("binding", toValue i.binding), ("references", toValue i.references)]

instance : ToValue Scope where
  toValue s := .map [("upper", toValue s.upper), ("variables", toValue s.names)]

instance : ToValue ModuleScope where
  toValue s := .map
    [("tree", .map [("scopes", toValue s.scopes.toList)]), ("module_scope", toValue s.moduleScope),
      ("declarations", toValue s.declarations), ("imports", toValue s.imports),
      ("globals", toValue s.globals)]

instance : ToValue MergeEntry where
  toValue
    | .concatenated m => .map
      [("module", toValue m.module), ("concatenated", .bool true),
        ("exports", toValue m.exports.entries), ("rawExports", toValue m.rawExports.entries),
        ("namespaceSymbol", toValue m.namespaceSymbol)]
    | .external e => .map
      [("module", toValue e.module), ("concatenated", .bool false),
        ("runtimeCondition", toValue e.condition), ("deferred", toValue e.deferred)]

namespace ModuleNames

def form (id : ModuleId) (n : ModuleNames) : Value :=
  .map
    [("module", toValue id), ("internal", toValue n.internal.entries),
      ("namespaceObject", toValue n.namespaceObject), ("externalName", toValue n.externalName),
      ("interopNamespace", toValue n.interopNamespace),
      ("interopNamespace2", toValue n.interopNamespace2), ("interopDefault", toValue n.interopDefault)]

end ModuleNames

instance : ToValue Binding where
  toValue b :=
    let shared : List (String × Value) :=
      [("module", toValue b.module), ("ids", toValue b.ids), ("export", toValue b.path),
        ("deferred", toValue b.deferred)]
    match b.base with
    | .raw name comment =>
      .map (("kind", .string "raw") :: ("name", toValue name) :: ("comment", toValue comment) :: shared)
    | .symbol name => .map (("kind", .string "symbol") :: ("symbol", toValue name) :: shared)

instance : ToValue NeededObjects where
  toValue n := .map
    [("empty", toValue n.isEmpty), ("namespaceObjects", toValue n.namespaceObjects),
      ("interopNamespaces", toValue n.interopNamespaces),
      ("interopNamespaces2", toValue n.interopNamespaces2),
      ("interopDefaults", toValue n.interopDefaults)]

instance : OfValue ReferenceSite where
  ofValue? v := some
    { asCall := v.get "as_call"
      callContext := v.get "call_context"
      strict := v.get "strict"
      asiSafe := v.get? "asi_safe"
      deferred := v.get "deferred" }

instance : ToValue Options where
  toValue o := .map
    [("reservedNames", toValue o.reservedNames), ("namespaceObjectName", toValue o.namespaceObjectName),
      ("propertyComments", toValue o.propertyComments), ("logLevel", toValue o.logLevel)]

end ModuleLink
