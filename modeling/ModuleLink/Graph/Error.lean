import ModuleLink.Exports.Arena

/-!
This module contains the ways in which operations on a module graph fail.
-/

namespace ModuleLink

inductive GraphError where
  | moduleNotFound (id : ModuleId)
  | unknownDependency (id : DependencyId)
  | notConnected (id : DependencyId)
  | redirectCycle (cause : RedirectCycle)
  | invalidModuleId (cause : ModuleIdError)
  | malformed
  | incompatibleFormat (expected found : Nat)
deriving DecidableEq, Repr

def DependencyId.render (d : DependencyId) : String := "DependencyId(" ++ toString d.index ++ ")"

def GraphError.message : GraphError → String
  | .moduleNotFound id => "Module not found: " ++ id.text
  | .unknownDependency id => "Unknown dependency " ++ id.render
  | .notConnected id => "Dependency " ++ id.render ++ " has no connection"
  | .redirectCycle cause => cause.message
  | .invalidModuleId cause => "Invalid module id: " ++ cause.message
  | .malformed => "Serialization error"
  | .incompatibleFormat expected found =>
    "Incompatible graph format version: expected " ++ toString expected ++ ", got " ++ toString found

end ModuleLink
