import ModuleLink.Identifier
import ModuleLink.Path
import ModuleLink.Readable
import ModuleLink.Scope

/-!
This module contains the search for a free name. Candidates are made of the old name and the segments of
the module's identity, from the last to the first; when these are used up, numbers are appended.
-/

namespace ModuleLink

structure TakenNames where
  allocated : List String
  visible : List String
deriving Repr

def TakenNames.isFree (t : TakenNames) (candidate : String) : Bool :=
  !candidate.isEmpty && !t.allocated.contains candidate && !t.visible.contains candidate

namespace Candidate

/--
The name that candidates are made of. Synthetic symbols have no name of their own.
-/
def baseName (namespaceName old : String) : String :=
  if old = defaultExportSymbol then ""
  else if old = namespaceObjectSymbol then namespaceName
  else old

def prepend (segment name : String) : String :=
  if name.isEmpty then segment else segment ++ "_" ++ name

def prepended (name : String) : List String → List String
  | [] => []
  | s :: ss => prepend s name :: prepended (prepend s name) ss

def segments (readable : String) : List String :=
  ((Path.segments '/' (Readable.clean readable).toList).map String.ofList).reverse

def numbered (name : String) (i : Nat) : String := Identifier.ofText (name ++ "_" ++ toString i)

end Candidate

open Candidate in
/--
The first free name among the candidates for `old`. Numbered candidates are all different, so that one of the first ones
is free.
-/
def findNewName (namespaceName old : String) (taken : TakenNames) (readable : String) : String :=
  let names := prepended (baseName namespaceName old) (segments readable)
  match (names.map Identifier.ofText).find? taken.isFree with
  | some name => name
  | none =>
    let last := names.getLastD (baseName namespaceName old)
    let bound := taken.allocated.length + taken.visible.length
    (((List.range bound).map (numbered last)).find? taken.isFree).getD (numbered last bound)

end ModuleLink
