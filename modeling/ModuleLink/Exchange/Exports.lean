import ModuleLink.Exchange.Basic
import ModuleLink.Exports.Snapshot

/-!
This module contains the exchange forms of export records, of their states and summaries, and of snapshots.
-/

namespace ModuleLink

namespace Usage

def names : List (String × Usage) :=
  [("NoInfo", .noInfo), ("Unused", .unused), ("Unknown", .unknown),
    ("PropertiesUsed", .propertiesUsed), ("Used", .used)]

instance : ToValue Usage := ⟨nameOf names⟩

instance : OfValue Usage := ⟨ofName? names⟩

end Usage

namespace Provision

def names : List (String × Provision) :=
  [("Undetermined", .undetermined), ("NotProvided", .notProvided), ("MaybeProvided", .maybeProvided),
    ("Provided", .provided)]

instance : ToValue Provision := ⟨nameOf names⟩

instance : OfValue Provision := ⟨ofName? names⟩

end Provision

instance : ToValue OutputName where
  toValue
    | .kept => .string "Original"
    | .renamed name => .map [("Renamed", .string name)]
    | .virtual => .string "Virtual"

instance : OfValue OutputName where
  ofValue?
    | .string "Original" => some .kept
    | .map [("Renamed", .string name)] => some (.renamed name)
    | .string "Virtual" => some .virtual
    | _ => none

instance : ToValue UsedExports where
  toValue
    | .unknown => .string "Unknown"
    | .never => .string "Never"
    | .everything => .string "Everything"
    | .names names => .map [("Names", toValue names)]

instance : OfValue UsedExports where
  ofValue?
    | .string "Unknown" => some .unknown
    | .string "Never" => some .never
    | .string "Everything" => some .everything
    | .map [("Names", names)] => (ofValue? names).map .names
    | _ => none

instance : ToValue ProvidedExports where
  toValue
    | .unknown => .string "Unknown"
    | .everything => .string "Everything"
    | .names names => .map [("Names", toValue names)]

instance : ToValue ExportTarget where
  toValue t := .map
    [("connection", toValue t.connection), ("export", toValue t.path), ("priority", toValue t.priority)]

def ExportRecord.fields (id : RecordId) (r : ExportRecord) : List (String × Value) :=
  [("id", toValue id), ("name", toValue r.name), ("used", toValue r.used),
    ("provided", toValue r.provided), ("can_mangle_provide", toValue r.mangleProvide),
    ("can_mangle_use", toValue r.mangleUse), ("canMangle", toValue r.canMangle),
    ("used_name", toValue r.outputName), ("virtual", toValue r.isVirtual),
    ("terminal_binding", toValue r.terminal), ("nested", toValue r.nested),
    ("nested_owned", toValue r.nestedOwned),
    ("targets", .map (r.targets.entries.map fun (d, t) => (toString d.index, toValue t))),
    ("hasTargets", toValue (!r.targets.isEmpty)), ("maxTargets", toValue r.maxTargets)]

namespace Arena

def recordForm (a : Arena) (id : RecordId) : Value := .map ((a.record id).fields id)

def descriptorForm (a : Arena) (id : DescriptorId) : Value :=
  let d := a.descriptor id
  .map
    [("id", toValue id), ("display", toValue id.render), ("len", toValue d.exports.size),
      ("empty", toValue d.exports.isEmpty), ("redirect", toValue d.redirect),
      ("owner", toValue d.owner), ("other", a.recordForm d.other), ("side", a.recordForm d.sideEffects),
      ("exports", .list ((a.orderedLocals id).map a.recordForm))]

instance : ToValue Arena where
  toValue a := .list ((List.range a.descriptors.size).map fun i => a.descriptorForm ⟨i⟩)

end Arena

namespace ProvisionFacts

def fields (f : ProvisionFacts) (provided mangle terminal : String) : List (String × Value) :=
  [(provided, toValue f.provided), (mangle, toValue f.mangleProvide), (terminal, toValue f.terminal)]

def ofFields (v : Value) (provided mangle terminal : String) : ProvisionFacts :=
  ⟨v.get provided, v.get? mangle, v.get terminal⟩

end ProvisionFacts

namespace ProvisionSnapshot

mutual

def form : ProvisionSnapshot → Value
  | .mk other exports =>
    .map <| ("exports", .list (exportForms exports)) ::
      other.fields "other_provided" "other_can_mangle_provide" "other_terminal_binding"

def exportForms : List (String × ProvisionFacts × Option ProvisionSnapshot) → List Value
  | [] => []
  | (name, facts, nested) :: rest =>
    .map (("name", toValue name) :: ("nested", nestedForm nested) ::
      facts.fields "provided" "can_mangle_provide" "terminal_binding") :: exportForms rest

def nestedForm : Option ProvisionSnapshot → Value
  | none => .null
  | some s => s.form

end

/--
Read a snapshot. Nested snapshots are parts of the value, so that its depth is enough fuel.
-/
def ofForm? (v : Value) : Option ProvisionSnapshot :=
  if v.isNull then none else go v.depth v
where
  go : Nat → Value → Option ProvisionSnapshot
    | 0, _ => none
    | n + 1, v => do
      let exports ← (v.field "exports").items.mapM fun e => do
        let nested ← if e.has "nested" then (go n (e.field "nested")).map some else some none
        return (← e.get? "name",
          ProvisionFacts.ofFields e "provided" "can_mangle_provide" "terminal_binding", nested)
      return .mk
        (.ofFields v "other_provided" "other_can_mangle_provide" "other_terminal_binding") exports

instance : ToValue ProvisionSnapshot := ⟨form⟩

instance : OfValue ProvisionSnapshot := ⟨ofForm?⟩

end ProvisionSnapshot
end ModuleLink
