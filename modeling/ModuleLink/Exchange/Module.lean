import ModuleLink.Exchange.Basic
import ModuleLink.Module

/-!
This module contains the exchange forms of modules, conditions, dependencies and connections.
-/

namespace ModuleLink

namespace ExportsType

def names : List (String × ExportsType) :=
  [("Namespace", .namespaced), ("Flagged", .flagged), ("Default", .object), ("Dynamic", .dynamic)]

instance : ToValue ExportsType := ⟨nameOf names⟩

instance : OfValue ExportsType := ⟨ofName? names⟩

end ExportsType

namespace DefaultObject

def names : List (String × DefaultObject) :=
  [("False", .unrelated), ("Redirect", .redirect), ("RedirectWarn", .redirectWarn)]

instance : ToValue DefaultObject := ⟨nameOf names⟩

instance : OfValue DefaultObject := ⟨ofName? names⟩

end DefaultObject

instance : ToValue ExportShape where
  toValue := nameOf
    [("NamespaceOnly", .namespaceOnly), ("DefaultWithNamed", .defaultWithNamed),
      ("DefaultOnly", .defaultOnly), ("Dynamic", .dynamic)]

instance : ToValue BuildMeta where
  toValue m := .map
    [("exports_type", toValue m.exportsType), ("default_object", toValue m.defaultObject),
      ("strict_esm", toValue m.strict)]

instance : OfValue BuildMeta where
  ofValue? v := some
    { exportsType := v.get? "exports_type"
      defaultObject := v.get "default_object"
      strict := v.get "strict_esm" }

instance : ToValue Module where
  toValue m := .map
    [("id", toValue m.id), ("build_meta", toValue m.buildMeta),
      ("has_side_effects", toValue m.hasSideEffects), ("is_external", toValue m.isExternal),
      ("readable", toValue m.readable)]

namespace Activity

def names : List (String × Activity) :=
  [("Active", .active), ("Inactive", .inactive), ("TransitiveOnly", .transitiveOnly),
    ("Circular", .circular)]

instance : ToValue Activity := ⟨nameOf names⟩

instance : OfValue Activity := ⟨ofName? names⟩

end Activity

namespace Condition

mutual

def form : Condition → Value
  | .always => .string "Always"
  | .never => .string "Never"
  | .inRuntimes spec => .map [("InRuntimes", toValue spec)]
  | .transitiveOnly => .string "TransitiveOnly"
  | .all cs => .map [("All", .list (forms cs))]

def forms : List Condition → List Value
  | [] => []
  | c :: cs => c.form :: forms cs

end

mutual

def ofForm? : Value → Option Condition
  | .string "Always" => some .always
  | .string "Never" => some .never
  | .string "TransitiveOnly" => some .transitiveOnly
  | .map [("InRuntimes", names)] => (ofValue? names).map .inRuntimes
  | .map [("All", .list vs)] => (ofForms? vs).map .all
  | _ => none

def ofForms? : List Value → Option (List Condition)
  | [] => some []
  | v :: vs => do return (← ofForm? v) :: (← ofForms? vs)

end

instance : ToValue Condition := ⟨form⟩

instance : OfValue Condition := ⟨ofForm?⟩

end Condition

instance : ToValue Dependency where
  toValue d := .map
    [("request", toValue d.request), ("ids", toValue d.ids), ("weak", toValue d.weak),
      ("deferred", toValue d.deferred), ("condition", toValue d.condition)]

instance : OfValue Dependency where
  ofValue? v := some
    { request := v.get "request"
      ids := v.get "ids"
      weak := v.get "weak"
      deferred := v.get "deferred"
      condition := (v.get? "condition").getD .always }

instance : ToValue Connection where
  toValue c := .map
    [("id", toValue c.id), ("origin_module", toValue c.origin),
      ("resolved_origin_module", toValue c.resolvedOrigin), ("dependency", toValue c.dependency),
      ("module", toValue c.target), ("resolved_module", toValue c.resolvedTarget),
      ("weak", toValue c.weak), ("deferred", toValue c.deferred), ("active", toValue c.active),
      ("condition", toValue c.condition), ("explanations", toValue c.explanations)]

end ModuleLink
