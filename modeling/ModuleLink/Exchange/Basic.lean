import ModuleLink.Connection
import ModuleLink.Exports.Record
import ModuleLink.Scope
import ModuleLink.Value.Basic

/-!
This module contains the classes of types whose values have an exchange form, and the forms of basic values,
numbers of things and identities of modules. A field that is missing and one that is `null` mean the same.
-/

namespace ModuleLink

class ToValue (α : Type) where
  toValue : α → Value

class OfValue (α : Type) where
  ofValue? : Value → Option α

export ToValue (toValue)
export OfValue (ofValue?)

namespace Value

def isNull : Value → Bool
  | .null => true
  | _ => false

def field (v : Value) (name : String) : Value :=
  match v with
  | .map fields => (fields.lookup name).getD .null
  | _ => .null

def has (v : Value) (name : String) : Bool := !(v.field name).isNull

def items : Value → List Value
  | .list items => items
  | _ => []

variable {α : Type} [OfValue α]

def get? (v : Value) (name : String) : Option α := ofValue? (v.field name)

def get [Inhabited α] (v : Value) (name : String) : α := (v.get? name).getD default

end Value

variable {α β : Type}

def nameOf [BEq α] (names : List (String × α)) (a : α) : Value :=
  match names.find? (·.2 == a) with
  | some (name, _) => .string name
  | none => .null

def ofName? (names : List (String × α)) : Value → Option α
  | .string name => names.lookup name
  | _ => none

instance : ToValue Value := ⟨id⟩

instance : OfValue Value := ⟨some⟩

instance : ToValue Bool := ⟨.bool⟩

instance : OfValue Bool where
  ofValue?
    | .bool b => some b
    | _ => none

instance : ToValue Int := ⟨.int⟩

instance : OfValue Int where
  ofValue?
    | .int n => some n
    | _ => none

instance : ToValue Nat := ⟨fun n => .int n⟩

instance : OfValue Nat where
  ofValue?
    | .int n => if 0 ≤ n then some n.toNat else none
    | _ => none

instance : ToValue String := ⟨.string⟩

instance : OfValue String where
  ofValue?
    | .string s => some s
    | _ => none

instance [ToValue α] : ToValue (Option α) where
  toValue
    | some a => toValue a
    | none => .null

instance [ToValue α] : ToValue (List α) := ⟨fun as => .list (as.map toValue)⟩

instance [OfValue α] : OfValue (List α) where
  ofValue?
    | .list items => items.mapM ofValue?
    | _ => none

instance [ToValue α] [ToValue β] : ToValue (α × β) := ⟨fun (a, b) => .list [toValue a, toValue b]⟩

instance [OfValue α] [OfValue β] : OfValue (α × β) where
  ofValue?
    | .list [a, b] => do return (← ofValue? a, ← ofValue? b)
    | _ => none

instance : ToValue DescriptorId := ⟨fun d => toValue d.index⟩

instance : OfValue DescriptorId := ⟨fun v => (ofValue? v).map .mk⟩

instance : ToValue RecordId := ⟨fun r => toValue r.index⟩

instance : OfValue RecordId := ⟨fun v => (ofValue? v).map .mk⟩

instance : ToValue DependencyId := ⟨fun d => toValue d.index⟩

instance : OfValue DependencyId := ⟨fun v => (ofValue? v).map .mk⟩

instance : ToValue ConnectionId := ⟨fun c => toValue c.index⟩

instance : OfValue ConnectionId := ⟨fun v => (ofValue? v).map .mk⟩

instance : ToValue ScopeId := ⟨fun s => toValue s.index⟩

instance : OfValue ScopeId := ⟨fun v => (ofValue? v).map .mk⟩

instance : ToValue ModuleId := ⟨fun id => toValue id.text⟩

instance : OfValue ModuleId := ⟨fun v => (ofValue? v).map ModuleId.ofSaved⟩

instance : ToValue RuntimeSpec := ⟨fun s => toValue s.names⟩

instance : OfValue RuntimeSpec := ⟨fun v => (ofValue? v).map RuntimeSpec.ofNames⟩

end ModuleLink
