import ModuleLink.Data.Distinct

/-!
This module contains sets of runtimes. A runtime is a build variant of the program, such as `main` or
`worker`. Where a runtime set is optional, `none` stands for every runtime.
-/

namespace ModuleLink

structure RuntimeSpec where
  names : List String := []
  sorted : names.Pairwise (· < ·) := by simp
deriving DecidableEq, Repr

instance : Inhabited RuntimeSpec := ⟨[], List.Pairwise.nil⟩

namespace RuntimeSpec

def ofNames (names : List String) : RuntimeSpec :=
  ⟨increasing names, pairwise_increasing names⟩

def single (name : String) : RuntimeSpec := ofNames [name]

def contains (s : RuntimeSpec) (name : String) : Bool := s.names.contains name

def isEmpty (s : RuntimeSpec) : Bool := s.names.isEmpty

def size (s : RuntimeSpec) : Nat := s.names.length

def intersects (s t : RuntimeSpec) : Bool := s.names.any t.contains

def merge (s t : RuntimeSpec) : RuntimeSpec := ofNames (s.names ++ t.names)

def render (s : RuntimeSpec) : String := String.intercalate "|" s.names

def covers (condition : RuntimeSpec) : Option RuntimeSpec → Bool
  | none => !condition.isEmpty
  | some runtime => condition.intersects runtime

/--
The runtimes in which one of two conditions holds; `none` is the condition that always does.
-/
def mergeCondition : Option RuntimeSpec → Option RuntimeSpec → Option RuntimeSpec
  | some a, some b => some (a.merge b)
  | _, _ => none

end RuntimeSpec
end ModuleLink
