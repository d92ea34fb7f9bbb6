import ModuleLink.ModuleId

/-!
This module contains the modules of a program, as far as their merging is concerned: what is known
about the structure of their exports, and the interop shape that follows from it.
-/

namespace ModuleLink

inductive ExportsType where
  | namespaced
  | flagged
  | object
  | dynamic
deriving DecidableEq, Repr, Inhabited

inductive DefaultObject where
  | unrelated
  | redirect
  /--
  As `redirect`, but strict importers must not rely on it.
  -/
  | redirectWarn
deriving DecidableEq, Repr, Inhabited

inductive ExportShape where
  | namespaceOnly
  | defaultWithNamed
  | defaultOnly
  | dynamic
deriving DecidableEq, Repr, Inhabited

structure BuildMeta where
  /--
  `none` if the structure could not be decided.
  -/
  exportsType : Option ExportsType := none
  defaultObject : DefaultObject := .unrelated
  strict : Bool := false
deriving DecidableEq, Repr, Inhabited

def DefaultObject.shape : DefaultObject → ExportShape
  | .unrelated => .defaultOnly
  | .redirect | .redirectWarn => .defaultWithNamed

/--
The shape of a module as a strict or a lenient importer sees it. `flagAbsent` says that the module is known not to
provide the flag of converted modules, which only matters for dynamic modules.
-/
def BuildMeta.shape (m : BuildMeta) (strict flagAbsent : Bool) : ExportShape :=
  match m.exportsType with
  | some .namespaced => .namespaceOnly
  | some .flagged => if strict then .defaultWithNamed else .namespaceOnly
  | some .object =>
    if m.defaultObject = .redirectWarn ∧ strict then .defaultOnly else m.defaultObject.shape
  | some .dynamic =>
    if strict then .defaultWithNamed
    else if flagAbsent then m.defaultObject.shape
    else .dynamic
  | none => if strict then .defaultWithNamed else .dynamic

structure Module where
  id : ModuleId
  buildMeta : BuildMeta := {}
  hasSideEffects : Bool := true
  isExternal : Bool := false
deriving DecidableEq, Repr, Inhabited

def Module.readable (m : Module) : String := m.id.readable

end ModuleLink
