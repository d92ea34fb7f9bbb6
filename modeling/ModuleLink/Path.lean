import ModuleLink.Text.Raw

/-!
This module contains slash separated paths as lists of components. A path is never looked up
anywhere: it is a raw text with a structure.
-/

namespace ModuleLink

/--
A component of a path, in the order in which components compare. A leading `.` is a component; elsewhere a `.` is none.
-/
inductive Component where
  | root
  | current
  | parent
  | normal (name : RawText)
deriving DecidableEq, Ord, Repr, Inhabited

def Component.text : Component → RawText
  | .root => ""
  | .current => "."
  | .parent => ".."
  | .normal name => name

namespace Path

def slash : UInt8 := 0x2F

def dot : UInt8 := 0x2E

def segments {α : Type} [DecidableEq α] (separator : α) : List α → List (List α)
  | [] => [[]]
  | c :: cs =>
    if c = separator then
      [] :: segments separator cs
    else
      match segments separator cs with
      | [] => [[c]]
      | s :: rest => (c :: s) :: rest

/--
The component that a segment stands for; an empty segment and an inner `.` stand for none.
-/
def component? (s : List UInt8) : Option Component :=
  if s = [] ∨ s = [dot] then none
  else if s = [dot, dot] then some .parent
  else some (.normal ⟨s⟩)

def components (path : RawText) : List Component :=
  match path.bytes with
  | [] => []
  | c :: cs =>
    if c = slash then .root :: (segments slash cs).filterMap component?
    else
      match segments slash (c :: cs) with
      | [] => []
      | s :: rest =>
        if s = [dot] then .current :: rest.filterMap component? else (s :: rest).filterMap component?

/--
Put one more component on a cleaned path, whose components are listed from the last to the first. A `..` takes back the
name before it, and there is nothing above the root.
-/
def cleanStep (stack : List Component) (c : Component) : List Component :=
  match c, stack with
  | .current, _ => stack
  | .parent, .root :: _ => stack
  | .parent, .normal _ :: rest => rest
  | c, _ => c :: stack

def clean (cs : List Component) : List Component :=
  (cs.foldl cleanStep []).reverse

def render : List Component → RawText
  | .root :: cs => ⟨slash :: [slash].intercalate (cs.map (·.text.bytes))⟩
  | cs => ⟨[slash].intercalate (cs.map (·.text.bytes))⟩

end Path
end ModuleLink
