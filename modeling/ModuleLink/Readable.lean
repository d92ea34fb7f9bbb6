import ModuleLink.Text.CharClass

/-!
This module contains the removal of noise from the readable identity of a module, before names are made of
it: dots before a slash, a short file extension (together with `/index`), and a count of further modules.
-/

namespace ModuleLink.Readable

def skipDots? : List Char → Option (List Char)
  | '.' :: cs =>
    match cs.dropWhile (· == '.') with
    | '/' :: rest => some rest
    | _ => none
  | _ => none

def skipText? : List Char → List Char → Option (List Char)
  | [], cs => some cs
  | _ :: _, [] => none
  | t :: ts, c :: cs => if t = c then skipText? ts cs else none

/--
The rest after a dot, one to four letters or digits, and the end of the text, a blank or a question mark.
-/
def skipDotExtension? : List Char → Option (List Char)
  | '.' :: cs =>
    let name := cs.takeWhile Char.isAlphanum
    if 1 ≤ name.length ∧ name.length ≤ 4 then
      match cs.dropWhile Char.isAlphanum with
      | [] => some []
      | c :: rest => if isBlank c ∨ c = '?' then some rest else none
    else
      none
  | _ => none

def skipExtension? (cs : List Char) : Option (List Char) :=
  match skipText? "/index".toList cs with
  | some rest => skipDotExtension? rest
  | none => skipDotExtension? cs

def skipCount? (cs : List Char) : Option (List Char) :=
  match cs.dropWhile isBlank with
  | '+' :: cs =>
    let cs := cs.dropWhile isBlank
    let rest := cs.dropWhile isDecimalDigit
    if rest.length < cs.length then
      skipText? "modules".toList (rest.dropWhile isBlank)
    else
      none
  | _ => none

def skipNoise? (cs : List Char) : Option (List Char) :=
  (skipDots? cs).or ((skipExtension? cs).or (skipCount? cs))

/--
Remove noise from left to right. Every step shortens the text, so that its length bounds the number of steps.
-/
def dropNoise : Nat → List Char → List Char
  | 0, cs => cs
  | _, [] => []
  | n + 1, c :: cs =>
    match skipNoise? (c :: cs) with
    | some rest => dropNoise n rest
    | none => c :: dropNoise n cs

def clean (readable : String) : String :=
  String.ofList (dropNoise readable.toList.length readable.toList)

end ModuleLink.Readable
