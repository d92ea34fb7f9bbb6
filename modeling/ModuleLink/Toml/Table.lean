import ModuleLink.Value.Basic

/-!
This module contains the tables of a TOML document while it is read. A table may be opened once by a header;
tables on the way to it come into being by themselves. Tables that dotted keys make, and finished values, cannot
be opened.
-/

namespace ModuleLink.Toml

inductive TableKind where
  | defined
  | implicit
  | dotted
deriving DecidableEq, Repr

inductive Node where
  | value (v : Value)
  | table (kind : TableKind) (entries : List (String × Node))
  | tables (elements : List (List (String × Node)))

abbrev Entries := List (String × Node)

def Entries.get? (es : Entries) (key : String) : Option Node := List.lookup key es

def Entries.set (es : Entries) (key : String) (n : Node) : Entries :=
  match es with
  | [] => [(key, n)]
  | (k, m) :: rest => if k = key then (k, n) :: rest else (k, m) :: Entries.set rest key n

abbrev Change := TableKind × Entries → Option (TableKind × Entries)

def passingKind (dotted : Bool) : TableKind := if dotted then .dotted else .implicit

/--
Change the table at a path. A path of a dotted key must not go through a table that is already defined; a path goes
through the last element of a list of tables.
-/
def changeAt (dotted : Bool) (f : Change) : List String → Change
  | [], t => f t
  | key :: path, (kind, es) =>
    match es.get? key with
    | none => do
      let (k, inner) ← changeAt dotted f path (passingKind dotted, [])
      return (kind, es.set key (.table k inner))
    | some (.value _) => none
    | some (.tables []) => none
    | some (.tables (last :: earlier)) => do
      let (_, inner) ← changeAt dotted f path (.defined, last)
      return (kind, es.set key (.tables (inner :: earlier)))
    | some (.table k inner) =>
      if dotted ∧ k = .defined then none
      else do
        let (k, inner) ← changeAt dotted f path (k, inner)
        return (kind, es.set key (.table k inner))

/--
Give a key its value. Tables that dotted keys made take dotted keys only, and others take none.
-/
def assign (dotted : Bool) (key : String) (v : Value) : Change
  | (kind, es) =>
    if (kind == .dotted) != dotted then none
    else if (es.get? key).isSome then none
    else some (kind, es.set key (.value v))

def assignPath (path : List String) (v : Value) : Change :=
  match path.getLast? with
  | none => fun _ => none
  | some key =>
    let dotted := decide (1 < path.length)
    changeAt dotted (assign dotted key v) path.dropLast

def openTable (key : String) : Change
  | (kind, es) =>
    match es.get? key with
    | none => some (kind, es.set key (.table .defined []))
    | some (.table .implicit inner) => some (kind, es.set key (.table .defined inner))
    | some _ => none

def openElement (key : String) : Change
  | (kind, es) =>
    match es.get? key with
    | none => some (kind, es.set key (.tables [[]]))
    | some (.tables elements) => some (kind, es.set key (.tables ([] :: elements)))
    | some _ => none

mutual

def Node.toValue : Node → Value
  | .value v => v
  | .table _ es => .map (fieldsOf es)
  | .tables elements => .list (listOf elements).reverse

def fieldsOf : List (String × Node) → List (String × Value)
  | [] => []
  | (key, n) :: es => (key, n.toValue) :: fieldsOf es

def listOf : List (List (String × Node)) → List Value
  | [] => []
  | es :: rest => .map (fieldsOf es) :: listOf rest

end

end ModuleLink.Toml
