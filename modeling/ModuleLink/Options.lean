import ModuleLink.LogLevel
import ModuleLink.Rename.Table
import ModuleLink.Text.Quoted
import ModuleLink.Value.Basic
import ModuleLink.Value.Number

/-!
This module contains the options of merging and how they are made of a value: either a map with a field per
option, or a list that gives the options in order. Options that are not given have their standard values.
-/

namespace ModuleLink

structure Options extends NameOptions where
  propertyComments : Bool := true
  logLevel : Option String := none
deriving DecidableEq, Repr, Inhabited

inductive OptionsError where
  | invalid (field : String) (hint : String)
  | malformed
  | missingFile
  | notText
deriving DecidableEq, Repr

def OptionsError.field? : OptionsError → Option String
  | .invalid field _ => some field
  | .malformed => some "toml"
  | .missingFile | .notText => none

def OptionsError.message : OptionsError → String
  | .invalid field hint => "invalid option '" ++ field ++ "': " ++ hint
  | .malformed => "invalid option 'toml'"
  | .missingFile => "I/O error: No such file or directory (os error 2)"
  | .notText => "I/O error: stream did not contain valid UTF-8"

namespace Value

def describe : Value → String
  | .null => "null"
  | .bool b => "boolean `" ++ toString b ++ "`"
  | .int n => "integer `" ++ toString n ++ "`"
  | .float x => "floating point `" ++ floatText x ++ "`"
  | .string s => "string " ++ Quoted.encode s
  | .list _ => "sequence"
  | .map _ => "map"

end Value

namespace Options

def mismatch (found : Value) (wanted : String) : String :=
  "invalid type: " ++ found.describe ++ ", expected " ++ wanted

def toText : Value → Except String String
  | .string s => .ok s
  | v => .error (mismatch v "a string")

def toBool : Value → Except String Bool
  | .bool b => .ok b
  | v => .error (mismatch v "a boolean")

def toTexts : Value → Except String (List String)
  | .list items => items.mapM toText
  | v => .error (mismatch v "a sequence")

def toOptionalText : Value → Except String (Option String)
  | .null => .ok none
  | v => (toText v).map some

def fieldNames : List String :=
  ["reservedNames", "namespaceObjectName", "propertyComments", "logLevel"]

def set (o : Options) (field : String) (v : Value) : Except String Options :=
  match field with
  | "reservedNames" => (toTexts v).map fun names => { o with reservedNames := names }
  | "namespaceObjectName" => (toText v).map fun name => { o with namespaceObjectName := name }
  | "propertyComments" => (toBool v).map fun b => { o with propertyComments := b }
  | "logLevel" => (toOptionalText v).map fun level => { o with logLevel := level }
  | _ => .ok o

def decode (v : Value) : Except String Options :=
  match v with
  | .map fields =>
    (fields.mergeSort fun a b => decide (a.1 ≤ b.1)).foldlM (fun o (name, v) => o.set name v) {}
  | .list items => do
    let o ← (fieldNames.zip items).foldlM (fun o (name, v) => set o name v) {}
    if fieldNames.length < items.length then
      throw ("invalid length " ++ toString items.length ++ ", expected fewer elements in array")
    return o
  | v => .error (mismatch v "struct HoistOptions")

def validate (o : Options) : Except OptionsError Unit :=
  let name := o.namespaceObjectName
  if !Identifier.isIdentifier name then
    .error (.invalid "namespaceObjectName" ("'" ++ name ++ "' is not a valid identifier"))
  else if ModuleLink.reservedNames.contains name || o.reservedNames.contains name then
    .error (.invalid "namespaceObjectName" ("'" ++ name ++ "' is reserved"))
  else
    match o.reservedNames.find? (!Identifier.isIdentifier ·) with
    | some name => .error (.invalid "reservedNames" ("'" ++ name ++ "' is not a valid identifier"))
    | none => .ok ()

def ofValue (v : Value) : Except OptionsError Options :=
  match decode v with
  | .error hint => .error (.invalid "options" hint)
  | .ok o => (validate o).map fun _ => o

def level (o : Options) : Except OptionsError LogLevel :=
  match o.logLevel with
  | none => .ok .standard
  | some text =>
    match LogLevel.ofText text with
    | .ok level => .ok level
    | .error e => .error (.invalid "logLevel" e.message)

end Options
end ModuleLink
