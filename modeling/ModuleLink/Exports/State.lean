/-!
This module contains the two lattices that are kept per export: how it is consumed and whether it
exists. Analyses move along them in one direction only.
-/

namespace ModuleLink

inductive Usage where
  | noInfo
  | unused
  | unknown
  | propertiesUsed
  | used
deriving DecidableEq, Repr, Inhabited

namespace Usage

def rank : Usage → Nat
  | .noInfo => 0
  | .unused => 1
  | .unknown => 2
  | .propertiesUsed => 3
  | .used => 4

instance : LE Usage := ⟨fun a b => a.rank ≤ b.rank⟩
instance : LT Usage := ⟨fun a b => a.rank < b.rank⟩
instance (a b : Usage) : Decidable (a ≤ b) := inferInstanceAs (Decidable (a.rank ≤ b.rank))
instance (a b : Usage) : Decidable (a < b) := inferInstanceAs (Decidable (a.rank < b.rank))

def promote (a b : Usage) : Usage := if a < b then b else a

def isUsed (a : Usage) : Bool := a != .unused

end Usage

inductive Provision where
  | undetermined
  | notProvided
  | maybeProvided
  | provided
deriving DecidableEq, Repr, Inhabited

namespace Provision

def rank : Provision → Nat
  | .undetermined => 0
  | .notProvided => 1
  | .maybeProvided => 2
  | .provided => 3

instance : LE Provision := ⟨fun a b => a.rank ≤ b.rank⟩
instance : LT Provision := ⟨fun a b => a.rank < b.rank⟩
instance (a b : Provision) : Decidable (a ≤ b) := inferInstanceAs (Decidable (a.rank ≤ b.rank))
instance (a b : Provision) : Decidable (a < b) := inferInstanceAs (Decidable (a.rank < b.rank))

/--
Whether promotion may still move the state: the two upper states are final.
-/
def isOpen : Provision → Bool
  | .undetermined | .notProvided => true
  | .maybeProvided | .provided => false

def moves (a b : Provision) : Bool := a.isOpen && decide (a < b)

def promote (a b : Provision) : Provision := if a.moves b then b else a

def toOption : Provision → Option Bool
  | .provided => some true
  | .notProvided => some false
  | .undetermined | .maybeProvided => none

end Provision

inductive OutputName where
  | kept
  | renamed (name : String)
  | virtual
deriving DecidableEq, Repr, Inhabited

inductive UsedExports where
  | unknown
  | never
  | everything
  | names (names : List String)
deriving DecidableEq, Repr, Inhabited

def UsedExports.mayUse (name : String) : UsedExports → Bool
  | .unknown | .everything => true
  | .never => false
  | .names ns => ns.contains name

inductive ProvidedExports where
  | unknown
  | everything
  | names (names : List String)
deriving DecidableEq, Repr, Inhabited

/--
Whether a name may be shortened: the providing side has to permit it, and the consuming side must not object.
-/
def canMangle : (provide use : Option Bool) → Option Bool
  | some false, _ | _, some false => some false
  | some true, _ => some true
  | none, _ => none

end ModuleLink
