import ModuleLink.ReservedName

/-!
This module contains identifiers: which texts are identifiers, and how any text is turned into one.
-/

namespace ModuleLink.Identifier

def isStart (c : Char) : Bool := c.isAlpha || c == '$' || c == '_'

def isPart (c : Char) : Bool := isStart c || c.isDigit

def isKept (c : Char) : Bool := c.isAlphanum || c == '$'

/--
Write `_` for every run of characters that are not kept; `inRun` says that one has begun.
-/
def collapse (inRun : Bool) : List Char → List Char
  | [] => []
  | c :: cs =>
    if isKept c then c :: collapse false cs
    else if inRun then collapse true cs
    else '_' :: collapse true cs

def guardStart : List Char → List Char
  | [] => []
  | c :: cs => if isStart c then c :: cs else '_' :: c :: cs

def ofText (text : String) : String :=
  String.ofList (collapse false (guardStart text.toList))

def hasForm (text : String) : Bool :=
  match text.toList with
  | [] => false
  | c :: cs => isStart c && cs.all isPart

def isIdentifier (text : String) : Bool := hasForm text && !propertyWords.contains text

end ModuleLink.Identifier
