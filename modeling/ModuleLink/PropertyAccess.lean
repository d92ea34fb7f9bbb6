import ModuleLink.Identifier
import ModuleLink.Text.JsonString

/-!
This module contains the source text of property accesses and of comments.
-/

namespace ModuleLink

def isArrayIndex (text : String) : Bool :=
  match text.toList with
  | [] => false
  | ['0'] => true
  | c :: cs => c.isDigit && c != '0' && cs.all Char.isDigit

def accessSegment (name : String) : String :=
  if isArrayIndex name then "[" ++ name ++ "]"
  else if Identifier.isIdentifier name then "." ++ name
  else "[" ++ JsonString.encode name ++ "]"

def propertyAccess (path : List String) : String := String.join (path.map accessSegment)

def splitTerminators : List Char → List Char
  | [] => []
  | [c] => [c]
  | c :: d :: cs =>
    if c = '*' ∧ d = '/' then '*' :: ' ' :: '/' :: splitTerminators cs
    else c :: splitTerminators (d :: cs)

/--
A comment with the given text, which cannot end the comment. There is no comment without a text.
-/
def blockComment (text : String) : String :=
  if text.isEmpty then "" else "/* " ++ String.ofList (splitTerminators text.toList) ++ " */"

end ModuleLink
