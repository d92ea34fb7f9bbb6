import ModuleLink.Toml.Lexical

/-!
This module contains the dates and times of TOML documents. A date is passed on as a table with a key of its
own, and a table that is written with that key stands for a date in the same way.
-/

namespace ModuleLink.Toml

def fixedNumber? (n : Nat) (cs : List Char) : Option (Nat × List Char) :=
  let ds := cs.take n
  if ds.length = n ∧ ds.all Char.isDigit then some (numberOf 10 ds, cs.drop n) else none

def daysIn (year month : Nat) : Nat :=
  if month = 2 then
    if year % 4 = 0 ∧ (year % 100 ≠ 0 ∨ year % 400 = 0) then 29 else 28
  else if [4, 6, 9, 11].contains month then 30
  else 31

def skipChar? (c : Char) : List Char → Option (List Char)
  | d :: cs => if c = d then some cs else none
  | [] => none

def skipDate? (cs : List Char) : Option (List Char) := do
  let (year, cs) ← fixedNumber? 4 cs
  let (month, cs) ← fixedNumber? 2 (← skipChar? '-' cs)
  let (day, cs) ← fixedNumber? 2 (← skipChar? '-' cs)
  if 1 ≤ month ∧ month ≤ 12 ∧ 1 ≤ day ∧ day ≤ daysIn year month then some cs else none

def skipTime? (cs : List Char) : Option (List Char) := do
  let (hour, cs) ← fixedNumber? 2 cs
  let (minute, cs) ← fixedNumber? 2 (← skipChar? ':' cs)
  if 23 < hour ∨ 59 < minute then none
  match cs with
  | ':' :: cs =>
    let (second, cs) ← fixedNumber? 2 cs
    if 60 < second then none
    match cs with
    | '.' :: cs =>
      let ds := cs.takeWhile Char.isDigit
      if ds.isEmpty then none else some (cs.drop ds.length)
    | cs => some cs
  | cs => some cs

def isOffset (cs : List Char) : Bool :=
  match cs with
  | [] | ['Z'] | ['z'] => true
  | c :: cs =>
    (c == '+' || c == '-') &&
      (do
        let (hours, cs) ← fixedNumber? 2 cs
        let (minutes, cs) ← fixedNumber? 2 (← skipChar? ':' cs)
        return cs.isEmpty && decide (hours ≤ 23) && decide (minutes ≤ 59)).getD false

def isDateTime (cs : List Char) : Bool :=
  match skipDate? cs with
  | some [] => true
  | some (c :: cs) => (c == 'T' || c == 't' || c == ' ') && (skipTime? cs).any isOffset
  | none => (skipTime? cs).any List.isEmpty

def dateKey : String := "$__toml_private_datetime"

def dateValue (text : String) : Value := .map [(dateKey, .string text)]

/--
A table stands for a date if the key of a date comes before all its other keys, whatever they are.
-/
def isDateTable (fields : List (String × Value)) : Bool :=
  (fields.lookup dateKey).isSome && fields.all fun (name, _) => !decide (name < dateKey)

def dateOf? (fields : List (String × Value)) : Option Value :=
  match fields.lookup dateKey with
  | some (.string text) => if isDateTime text.toList then some (dateValue text) else none
  | _ => none

mutual

/--
The value in which tables that stand for dates are dates; `none` if one of them does not hold a date.
-/
def settle? : Value → Option Value
  | .list items => (settleItems? items).map .list
  | .map fields => if isDateTable fields then dateOf? fields else (settleFields? fields).map .map
  | v => some v

def settleItems? : List Value → Option (List Value)
  | [] => some []
  | v :: vs => do return (← settle? v) :: (← settleItems? vs)

def settleFields? : List (String × Value) → Option (List (String × Value))
  | [] => some []
  | (name, v) :: fields => do return (name, ← settle? v) :: (← settleFields? fields)

end

end ModuleLink.Toml
