import ModuleLink.Text.Lowercase

/-!
This module contains the levels of diagnostics.
-/

namespace ModuleLink

inductive LogLevel where
  | silent
  | error
  | warn
  | info
  | debug
  | trace
deriving DecidableEq, Repr

namespace LogLevel

def standard : LogLevel := .info

instance : Inhabited LogLevel := ⟨standard⟩

def names : List (String × LogLevel) :=
  [("silent", .silent), ("off", .silent), ("error", .error), ("warn", .warn), ("warning", .warn),
    ("info", .info), ("debug", .debug), ("trace", .trace)]

structure Invalid where
  text : String
deriving DecidableEq, Repr

def Invalid.message (e : Invalid) : String := "Invalid log level: " ++ e.text

def ofText (text : String) : Except Invalid LogLevel :=
  match names.lookup (lowercase text) with
  | some level => .ok level
  | none => .error ⟨lowercase text⟩

def render : LogLevel → String
  | .silent => "off"
  | .error => "error"
  | .warn => "warn"
  | .info => "info"
  | .debug => "debug"
  | .trace => "trace"

end LogLevel
end ModuleLink
