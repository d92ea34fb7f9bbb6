import ModuleLink.Graph.Error

/-!
This module contains the ways in which merging modules into one scope fails.
-/

namespace ModuleLink

inductive LinkError where
  | unresolvableReexport (module : ModuleId) (path : List String) (members : List String)
  | unknownExport (module : ModuleId) (path : List String)
  | missingName (module : ModuleId) (symbol : String)
  | notInMergeSet (module : ModuleId)
  | conditionalMember (module : ModuleId)
  | unreachableMembers (root : ModuleId) (members : List ModuleId)
  | graph (cause : GraphError)
deriving DecidableEq, Repr

def LinkError.message : LinkError → String
  | .unresolvableReexport m path members =>
    "target module of reexport from '" ++ m.text ++ "' is not part of the merge set (export '" ++
      String.intercalate "." path ++ "')\nmodules in the merge set:\n" ++
      String.intercalate "\n" members
  | .unknownExport m path =>
    "cannot get final name for export '" ++ String.intercalate "." path ++ "' of " ++ m.text
  | .missingName m symbol => "the symbol '" ++ symbol ++ "' in '" ++ m.text ++ "' has no internal name"
  | .notInMergeSet m => "module '" ++ m.text ++ "' is not part of the merge set"
  | .conditionalMember m => "cannot merge module '" ++ m.text ++ "' under a runtime condition"
  | .unreachableMembers root members =>
    "modules chosen for merging into '" ++ root.text ++ "' are not reachable from it: " ++
      String.intercalate ", " (members.map (·.text))
  | .graph cause => cause.message

def LinkError.ofGraph {α : Type} : Except GraphError α → Except LinkError α
  | .ok a => .ok a
  | .error e => .error (.graph e)

end ModuleLink
