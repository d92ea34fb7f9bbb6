import ModuleLink.Toml.Date
import ModuleLink.Toml.Table

/-!
This module contains the reading of TOML documents.
-/

namespace ModuleLink.Toml

def maxDepth : Nat := 80

def isAtomChar (c : Char) : Bool := c.isAlphanum || ['_', '-', '+', '.', ':'].contains c

def skipLines : Nat → List Char → List Char
  | 0, cs => cs
  | n + 1, cs =>
    let cs := skipComment (skipSpace cs)
    match newline? cs with
    | some cs => skipLines n cs
    | none => cs

def atomLength (cs : List Char) : Nat :=
  let n := (cs.takeWhile isAtomChar).length
  match skipDate? (cs.take n), cs.drop n with
  | some [], ' ' :: d :: rest =>
    if d.isDigit then n + 1 + ((d :: rest).takeWhile isAtomChar).length else n
  | _, _ => n

def scalar? (cs : List Char) : Option Value :=
  if cs = ['t', 'r', 'u', 'e'] then some (.bool true)
  else if cs = ['f', 'a', 'l', 's', 'e'] then some (.bool false)
  else if isDateTime cs then some (dateValue (String.ofList cs))
  else (integer? cs).or (float? cs)

mutual

/--
Read a value in which lists and inline tables are nested `levels` deep at most. Two steps of fuel for each character are
enough.
-/
def readValue : Nat → (levels : Nat) → Reader Value
  | 0, _, _ => none
  | n + 1, levels, cs =>
    match cs, levels with
    | '"' :: _, _ | '\'' :: _, _ => (readString cs).map fun (s, cs) => (.string s, cs)
    | '[' :: _, 0 | '\x7b' :: _, 0 => none
    | '[' :: cs, levels + 1 => readItems n levels [] cs
    | '\x7b' :: cs, levels + 1 => readInline n levels true (.defined, []) cs
    | cs, _ =>
      let length := atomLength cs
      (scalar? (cs.take length)).map fun v => (v, cs.drop length)

/--
Read the rest of a list; `read` are the items that were read, the last first.
-/
def readItems : Nat → (levels : Nat) → List Value → Reader Value
  | 0, _, _, _ => none
  | n + 1, levels, read, cs =>
    match skipLines (cs.length + 1) cs with
    | ']' :: cs => some (.list read.reverse, cs)
    | cs =>
      match readValue n levels cs with
      | none => none
      | some (v, cs) =>
        match skipLines (cs.length + 1) cs with
        | ',' :: cs => readItems n levels (v :: read) cs
        | ']' :: cs => some (.list (v :: read).reverse, cs)
        | _ => none

def readInline : Nat → (levels : Nat) → Bool → TableKind × Entries → Reader Value
  | 0, _, _, _, _ => none
  | n + 1, levels, more, t, cs =>
    match skipLines (cs.length + 1) cs with
    | '\x7d' :: cs => some ((Node.table t.1 t.2).toValue, cs)
    | cs =>
      if !more then none
      else
        match readKey maxDepth cs with
        | none => none
        | some (path, cs) =>
          match skipLines (cs.length + 1) cs with
          | '=' :: cs =>
            match readValue n levels (skipLines (cs.length + 1) cs) with
            | none => none
            | some (v, cs) =>
              match assignPath path v t with
              | none => none
              | some t =>
                match skipLines (cs.length + 1) cs with
                | ',' :: cs => readInline n levels true t cs
                | cs => readInline n levels false t cs
          | _ => none

end

def readHeader (closing : List Char) (cs : List Char) : Option (List String × List Char) :=
  match readKey maxDepth (skipSpace cs) with
  | none => none
  | some (path, cs) =>
    let cs := skipSpace cs
    if closing.isPrefixOf cs then (lineEnd? (cs.drop closing.length)).map (path, ·) else none

def openAt (step : String → Change) (path : List String) : Change :=
  match path.getLast? with
  | none => fun _ => none
  | some key => changeAt false (step key) path.dropLast

def readLines : Nat → (header : List String) → TableKind × Entries → List Char → Option Entries
  | 0, _, _, _ => none
  | n + 1, header, root, cs =>
    match skipLines (cs.length + 1) cs with
    | [] => some root.2
    | '[' :: '[' :: cs => do
      let (path, cs) ← readHeader [']', ']'] cs
      readLines n path (← openAt openElement path root) cs
    | '[' :: cs => do
      let (path, cs) ← readHeader [']'] cs
      readLines n path (← openAt openTable path root) cs
    | cs => do
      let (path, cs) ← readKey maxDepth cs
      match skipSpace cs with
      | '=' :: cs =>
        let (v, cs) ← readValue (2 * cs.length + 2) maxDepth (skipSpace cs)
        let cs ← lineEnd? cs
        readLines n header (← changeAt false (assignPath path v) header root) cs
      | _ => none

def read? (text : String) : Option Value :=
  let cs :=
    match text.toList with
    | '\uFEFF' :: cs => cs
    | cs => cs
  (readLines (cs.length + 1) [] (.defined, []) cs).bind fun es => settle? (Node.table .defined es).toValue

end ModuleLink.Toml
