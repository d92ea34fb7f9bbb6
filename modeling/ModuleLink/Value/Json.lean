import ModuleLink.Text.JsonString
import ModuleLink.Value.Basic
import ModuleLink.Value.Number

/-!
This module contains the reading and writing of values as JSON text. Whole numbers that fit into 64 bits are
integers; all other numbers are floating point.
-/

namespace ModuleLink.Json

abbrev Reader (α : Type) := List Char → Option (α × List Char)

def isSpace (c : Char) : Bool := c == ' ' || c == '\t' || c == '\n' || c == '\r'

def skipSpace (cs : List Char) : List Char := cs.dropWhile isSpace

def hexValue? (c : Char) : Option Nat :=
  if c.isDigit then some (c.toNat - '0'.toNat)
  else if 'a' ≤ c ∧ c ≤ 'f' then some (c.toNat - 'a'.toNat + 10)
  else if 'A' ≤ c ∧ c ≤ 'F' then some (c.toNat - 'A'.toNat + 10)
  else none

def hexNumber? (cs : List Char) : Option Nat :=
  cs.foldlM (fun n c => (hexValue? c).map (16 * n + ·)) 0

def simpleEscape? (c : Char) : Option Char :=
  match c with
  | '"' => some '"'
  | '\\' => some '\\'
  | '/' => some '/'
  | 'b' => some '\x08'
  | 'f' => some '\x0c'
  | 'n' => some '\n'
  | 'r' => some '\r'
  | 't' => some '\t'
  | _ => none

def isHighSurrogate (n : Nat) : Bool := 0xD800 ≤ n && n < 0xDC00

def isLowSurrogate (n : Nat) : Bool := 0xDC00 ≤ n && n < 0xE000

/--
Read the rest of a string literal; `read` is what was read of it, the last character first.
-/
def readString (read : List Char) : Reader String
  | [] => none
  | '"' :: cs => some (String.ofList read.reverse, cs)
  | '\\' :: 'u' :: a :: b :: c :: d :: cs =>
    match hexNumber? [a, b, c, d] with
    | none => none
    | some n =>
      if isHighSurrogate n then
        match cs with
        | '\\' :: 'u' :: a :: b :: c :: d :: cs =>
          match hexNumber? [a, b, c, d] with
          | none => none
          | some m =>
            if isLowSurrogate m then
              readString (Char.ofNat (0x10000 + (n - 0xD800) * 0x400 + (m - 0xDC00)) :: read) cs
            else
              none
        | _ => none
      else if isLowSurrogate n then
        none
      else
        readString (Char.ofNat n :: read) cs
  | '\\' :: c :: cs =>
    match simpleEscape? c with
    | none => none
    | some c => readString (c :: read) cs
  | c :: cs => if c.toNat < 0x20 ∨ c = '\\' then none else readString (c :: read) cs

def greatestSignificand : Nat := 0xffffffffffffffff

/--
A number `significand * 10 ^ exponent`; digits beyond the capacity of the significand are dropped.
-/
structure Scanned where
  significand : Nat := 0
  exponent : Int := 0
  full : Bool := false

def digitValue (c : Char) : Nat := c.toNat - '0'.toNat

def Scanned.addWhole (s : Scanned) (c : Char) : Scanned :=
  let n := s.significand * 10 + digitValue c
  if s.full ∨ greatestSignificand < n then { s with exponent := s.exponent + 1, full := true }
  else { s with significand := n }

def Scanned.addFraction (s : Scanned) (c : Char) : Scanned :=
  let n := s.significand * 10 + digitValue c
  if s.full ∨ greatestSignificand < n then { s with full := true }
  else { s with significand := n, exponent := s.exponent - 1 }

def powerOfTen (n : Nat) : Float := Float.ofScientific 1 false n

def scaleDown (x : Float) (n : Nat) : Float :=
  if n ≤ 308 then x / powerOfTen n
  else if x == 0 then x
  else scaleDown (x / powerOfTen 308) (n - 308)
termination_by n

def Scanned.toFloat? (s : Scanned) : Option Float :=
  let x := Float.ofNat s.significand
  if s.exponent < 0 then
    some (scaleDown x (-s.exponent).toNat)
  else if s.exponent ≤ 308 then
    let y := x * powerOfTen s.exponent.toNat
    if y.isInf then none else some y
  else if s.significand = 0 then some x
  else none

def wholeNumber? (negative : Bool) (s : Scanned) : Option Value :=
  if s.full then s.toFloat?.map fun x => .float (if negative then -x else x)
  else if !negative then some (.int s.significand)
  else if s.significand = 0 ∨ 0x8000000000000000 < s.significand then some (.float (-(Float.ofNat s.significand)))
  else some (.int (-(s.significand : Int)))

def readExponent : Reader Int
  | '-' :: cs =>
    let ds := cs.takeWhile Char.isDigit
    if ds.isEmpty then none
    else some (-((ds.foldl (fun n c => 10 * n + digitValue c) 0 : Nat) : Int), cs.dropWhile Char.isDigit)
  | cs =>
    let cs :=
      match cs with
      | '+' :: cs => cs
      | cs => cs
    let ds := cs.takeWhile Char.isDigit
    if ds.isEmpty then none
    else some (((ds.foldl (fun n c => 10 * n + digitValue c) 0 : Nat) : Int), cs.dropWhile Char.isDigit)

def readNumber (negative : Bool) : Reader Value := fun cs => do
  let whole := cs.takeWhile Char.isDigit
  if whole.isEmpty || (whole.length > 1 && whole.head? == some '0') then none
  let s := whole.foldl Scanned.addWhole {}
  let cs := cs.dropWhile Char.isDigit
  let sign (x : Float) : Value := .float (if negative then -x else x)
  let (s, isWhole, cs) ←
    match cs with
    | '.' :: cs =>
      let fraction := cs.takeWhile Char.isDigit
      if fraction.isEmpty then none
      else some (fraction.foldl Scanned.addFraction { s with full := false }, false,
        cs.dropWhile Char.isDigit)
    | cs => some (s, true, cs)
  match cs with
  | 'e' :: cs | 'E' :: cs =>
    let (e, cs) ← readExponent cs
    let x ← { s with exponent := s.exponent + e }.toFloat?
    return (sign x, cs)
  | cs =>
    if isWhole then
      return (← wholeNumber? negative s, cs)
    else
      return (sign (← s.toFloat?), cs)

mutual

/--
Read a value. Every step reads a character, so that the length of the text is enough fuel.
-/
def readValue : Nat → Reader Value
  | 0, _ => none
  | n + 1, cs =>
    match skipSpace cs with
    | '"' :: cs => (readString [] cs).map fun (s, cs) => (.string s, cs)
    | '[' :: cs =>
      match skipSpace cs with
      | ']' :: cs => some (.list [], cs)
      | cs => readItems n [] cs
    | '\x7b' :: cs =>
      match skipSpace cs with
      | '\x7d' :: cs => some (.map [], cs)
      | cs => readFields n [] cs
    | 'n' :: 'u' :: 'l' :: 'l' :: cs => some (.null, cs)
    | 't' :: 'r' :: 'u' :: 'e' :: cs => some (.bool true, cs)
    | 'f' :: 'a' :: 'l' :: 's' :: 'e' :: cs => some (.bool false, cs)
    | '-' :: cs => readNumber true cs
    | cs => readNumber false cs

/--
Read the rest of a list; `read` are the items that were read, the last first.
-/
def readItems : Nat → List Value → Reader Value
  | 0, _, _ => none
  | n + 1, read, cs =>
    match readValue n cs with
    | none => none
    | some (v, cs) =>
      match skipSpace cs with
      | ',' :: cs => readItems n (v :: read) cs
      | ']' :: cs => some (.list (v :: read).reverse, cs)
      | _ => none

/--
Read the rest of a map. Of fields with the same name the last one counts.
-/
def readFields : Nat → List (String × Value) → Reader Value
  | 0, _, _ => none
  | n + 1, read, cs =>
    match skipSpace cs with
    | '"' :: cs =>
      match readString [] cs with
      | none => none
      | some (name, cs) =>
        match skipSpace cs with
        | ':' :: cs =>
          match readValue n cs with
          | none => none
          | some (v, cs) =>
            match skipSpace cs with
            | ',' :: cs => readFields n (Value.setField read name v) cs
            | '\x7d' :: cs => some (.map (Value.setField read name v), cs)
            | _ => none
        | _ => none
    | _ => none

end

def read? (text : String) : Option Value :=
  match readValue (text.length + 1) text.toList with
  | some (v, rest) => if (skipSpace rest).isEmpty then some v else none
  | none => none

mutual

def write : Value → String
  | .null => "null"
  | .bool b => if b then "true" else "false"
  | .int n => toString n
  | .float x => Value.floatText x
  | .string s => JsonString.encode s
  | .list items => "[" ++ writeItems items ++ "]"
  | .map fields => "\x7b" ++ writeFields fields ++ "\x7d"

def writeItems : List Value → String
  | [] => ""
  | [v] => write v
  | v :: vs => write v ++ "," ++ writeItems vs

def writeFields : List (String × Value) → String
  | [] => ""
  | [(name, v)] => JsonString.encode name ++ ":" ++ write v
  | (name, v) :: rest => JsonString.encode name ++ ":" ++ write v ++ "," ++ writeFields rest

end

end ModuleLink.Json
