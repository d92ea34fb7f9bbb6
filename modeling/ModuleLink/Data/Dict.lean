/-!
This module contains finite maps that remember the order in which their keys were first inserted.
Keys are compared with `==`, which may identify keys that are spelt differently: the spelling that
was inserted first is the one that is kept.
-/

namespace ModuleLink

/--
A finite map given by its entries in insertion order. All operations keep the keys pairwise different with respect to
`==`.
-/
structure Dict (α : Type u) (β : Type v) where
  entries : List (α × β) := []
deriving DecidableEq, Repr, Inhabited

namespace Dict

variable {α : Type u} {β : Type v} {γ : Type w}

def empty : Dict α β := {}

def keys (d : Dict α β) : List α := d.entries.map Prod.fst

def values (d : Dict α β) : List β := d.entries.map Prod.snd

def size (d : Dict α β) : Nat := d.entries.length

def isEmpty (d : Dict α β) : Bool := d.entries.isEmpty

def mapValues (d : Dict α β) (f : α → β → γ) : Dict α γ :=
  ⟨d.entries.map fun (k, v) => (k, f k v)⟩

variable [BEq α]

def get? (d : Dict α β) (k : α) : Option β :=
  go d.entries
where
  go : List (α × β) → Option β
    | [] => none
    | (k', v) :: rest => if k' == k then some v else go rest

def contains (d : Dict α β) (k : α) : Bool := (d.get? k).isSome

/--
Set the value of `k`: an entry with an equal key gets the new value and keeps its place and its spelling, otherwise a
new entry goes to the end.
-/
def insert (d : Dict α β) (k : α) (v : β) : Dict α β :=
  ⟨go d.entries⟩
where
  go : List (α × β) → List (α × β)
    | [] => [(k, v)]
    | (k', v') :: rest => if k' == k then (k', v) :: rest else (k', v') :: go rest

def modify (d : Dict α β) (k : α) (f : β → β) : Dict α β :=
  ⟨go d.entries⟩
where
  go : List (α × β) → List (α × β)
    | [] => []
    | (k', v) :: rest => if k' == k then (k', f v) :: rest else (k', v) :: go rest

def erase (d : Dict α β) (k : α) : Dict α β :=
  ⟨go d.entries⟩
where
  go : List (α × β) → List (α × β)
    | [] => []
    | (k', v) :: rest => if k' == k then rest else (k', v) :: go rest

def ofList (pairs : List (α × β)) : Dict α β :=
  pairs.foldl (fun d (k, v) => d.insert k v) empty

def groupBy (key : β → α) (values : List β) : Dict α (List β) :=
  values.foldl (fun d v => d.insert (key v) ((d.get? (key v)).getD [] ++ [v])) empty

end Dict
end ModuleLink
