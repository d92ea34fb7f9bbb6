import ModuleLink.Value.Json

/-!
This module contains the parts of a TOML document that have no parts of their own: blanks, comments, strings,
keys, and numbers.
-/

namespace ModuleLink.Toml

abbrev Reader (α : Type) := List Char → Option (α × List Char)

def isSpace (c : Char) : Bool := c == ' ' || c == '\t'

def skipSpace (cs : List Char) : List Char := cs.dropWhile isSpace

def isTextChar (c : Char) : Bool := c == '\t' || (decide (0x20 ≤ c.toNat) && c.toNat != 0x7F)

def newline? : List Char → Option (List Char)
  | '\n' :: cs => some cs
  | '\r' :: '\n' :: cs => some cs
  | _ => none

def skipComment (cs : List Char) : List Char :=
  match cs with
  | '#' :: rest => rest.dropWhile isTextChar
  | cs => cs

def lineEnd? (cs : List Char) : Option (List Char) :=
  match skipComment (skipSpace cs) with
  | [] => some []
  | cs => newline? cs

def charOf? (n : Nat) : Option Char := if n.isValidChar then some (Char.ofNat n) else none

def readEscape : Reader Char
  | 'b' :: cs => some ('\x08', cs)
  | 't' :: cs => some ('\t', cs)
  | 'n' :: cs => some ('\n', cs)
  | 'f' :: cs => some ('\x0c', cs)
  | 'r' :: cs => some ('\r', cs)
  | 'e' :: cs => some ('\x1b', cs)
  | '"' :: cs => some ('"', cs)
  | '\\' :: cs => some ('\\', cs)
  | 'x' :: cs => code 2 cs
  | 'u' :: cs => code 4 cs
  | 'U' :: cs => code 8 cs
  | _ => none
where
  code (n : Nat) (cs : List Char) : Option (Char × List Char) :=
    if cs.length < n then none
    else ((Json.hexNumber? (cs.take n)).bind charOf?).map fun c => (c, cs.drop n)

/--
Read the rest of a string with escapes on one line; `read` is what was read, the last first.
-/
def readBasic : Nat → List Char → Reader String
  | 0, _, _ => none
  | _, _, [] => none
  | n + 1, read, c :: cs =>
    if c = '"' then some (String.ofList read.reverse, cs)
    else if c = '\\' then
      match readEscape cs with
      | none => none
      | some (c, cs) => readBasic n (c :: read) cs
    else if isTextChar c then readBasic n (c :: read) cs
    else none

def readLiteral (cs : List Char) : Option (String × List Char) :=
  let body := cs.takeWhile fun c => isTextChar c && c != '\''
  match cs.drop body.length with
  | '\'' :: rest => some (String.ofList body, rest)
  | _ => none

def skipBlankLines : List Char → List Char
  | [] => []
  | '\r' :: '\n' :: cs => skipBlankLines cs
  | c :: cs => if isSpace c || c == '\n' then skipBlankLines cs else c :: cs

/--
Read the rest of a string of several lines, which three quotes end; up to two more quotes before them belong to the
string. In a string with escapes a backslash at the end of a line joins the lines. Other line ends are kept as they are.
-/
def readLong (quote : Char) (escapes : Bool) : Nat → List Char → Reader String
  | 0, _, _ => none
  | _, _, [] => none
  | n + 1, read, c :: cs =>
    if c = quote then
      let run := ((c :: cs).takeWhile (· == quote)).length
      if run < 3 then readLong quote escapes n (c :: read) cs
      else
        let inner := min (run - 3) 2
        some (String.ofList (List.replicate inner quote ++ read).reverse, (c :: cs).drop (inner + 3))
    else if escapes ∧ c = '\\' then
      match newline? (skipSpace cs) with
      | some cs => readLong quote escapes n read (skipBlankLines cs)
      | none =>
        match readEscape cs with
        | none => none
        | some (c, cs) => readLong quote escapes n (c :: read) cs
    else if isTextChar c || (newline? (c :: cs)).isSome then readLong quote escapes n (c :: read) cs
    else none

def skipFirstNewline (cs : List Char) : List Char := (newline? cs).getD cs

def readShortString : Reader String
  | '"' :: cs => readBasic (cs.length + 1) [] cs
  | '\'' :: cs => readLiteral cs
  | _ => none

def readString : Reader String
  | '"' :: '"' :: '"' :: cs => readLong '"' true (cs.length + 1) [] (skipFirstNewline cs)
  | '\'' :: '\'' :: '\'' :: cs => readLong '\'' false (cs.length + 1) [] (skipFirstNewline cs)
  | cs => readShortString cs

def isBareKeyChar (c : Char) : Bool := c.isAlphanum || c == '_' || c == '-'

def readKeyPart (cs : List Char) : Option (String × List Char) :=
  let bare := cs.takeWhile isBareKeyChar
  if bare.isEmpty then readShortString cs
  else some (String.ofList bare, cs.drop bare.length)

def readKey : Nat → Reader (List String)
  | 0, _ => none
  | n + 1, cs =>
    match readKeyPart cs with
    | none => none
    | some (part, cs) =>
      match skipSpace cs with
      | '.' :: cs => (readKey n (skipSpace cs)).map fun (parts, cs) => (part :: parts, cs)
      | cs => some ([part], cs)

/--
Digits of which single ones may be divided by `_`; `none` if they are not well-formed.
-/
def groupedDigits? (isDigit : Char → Bool) (cs : List Char) : Option (List Char) :=
  let rec go : List Char → Option (List Char)
    | [] => some []
    | '_' :: c :: cs => if isDigit c then (go cs).map (c :: ·) else none
    | c :: cs => if isDigit c then (go cs).map (c :: ·) else none
  match cs with
  | c :: _ => if isDigit c then go cs else none
  | [] => none

def isOctal (c : Char) : Bool := '0' ≤ c && c ≤ '7'

def isBinary (c : Char) : Bool := c == '0' || c == '1'

def numberOf (base : Nat) (ds : List Char) : Nat :=
  ds.foldl (fun n c => base * n + (Json.hexValue? c).getD 0) 0

def signOf : List Char → Bool × List Char
  | '-' :: cs => (true, cs)
  | '+' :: cs => (false, cs)
  | cs => (false, cs)

def wholeDigits? (cs : List Char) : Option (List Char) :=
  match groupedDigits? Char.isDigit cs with
  | some ds => if ds.length > 1 ∧ ds.head? = some '0' then none else some ds
  | none => none

def integer? (cs : List Char) : Option Value :=
  let inRange (n : Int) : Option Value :=
    if -0x8000000000000000 ≤ n ∧ n < 0x8000000000000000 then some (.int n) else none
  match cs with
  | '0' :: 'x' :: cs => (groupedDigits? (fun c => (Json.hexValue? c).isSome) cs).bind (inRange <| numberOf 16 ·)
  | '0' :: 'o' :: cs => (groupedDigits? isOctal cs).bind (inRange <| numberOf 8 ·)
  | '0' :: 'b' :: cs => (groupedDigits? isBinary cs).bind (inRange <| numberOf 2 ·)
  | cs =>
    let (negative, cs) := signOf cs
    (wholeDigits? cs).bind fun ds =>
      let n : Int := numberOf 10 ds
      inRange (if negative then -n else n)

/--
The floating point number `digits * 10 ^ exponent`, unless it is out of range.
-/
def floatOf? (negative : Bool) (digits : List Char) (exponent : Int) : Option Value :=
  let m := numberOf 10 digits
  let sign (x : Float) : Value := .float (if negative then -x else x)
  if m = 0 ∨ exponent + digits.length < -400 then some (sign 0)
  else if 400 < exponent then none
  else
    let x := Float.ofScientific m (exponent < 0) exponent.natAbs
    if x.isInf then none else some (sign x)

def decimal? (cs : List Char) : Option Value :=
  let (negative, cs) := signOf cs
  let isMark (c : Char) : Bool := c == 'e' || c == 'E'
  let mantissa := cs.takeWhile (!isMark ·)
  let exponent? : Option Int :=
    match cs.drop mantissa.length with
    | [] => some 0
    | _ :: es =>
      let (down, es) := signOf es
      (groupedDigits? Char.isDigit es).map fun ds =>
        let n : Int := numberOf 10 ds
        if down then -n else n
  let whole := mantissa.takeWhile (· != '.')
  let fraction? : Option (List Char) :=
    match mantissa.drop whole.length with
    | [] => some []
    | _ :: fs => groupedDigits? Char.isDigit fs
  match wholeDigits? whole, fraction?, exponent? with
  | some ds, some fs, some e =>
    if whole.length = cs.length then none
    else floatOf? negative (ds ++ fs) (e - (fs.length : Int))
  | _, _, _ => none

/--
A floating point number. Those that are not finite are passed on as `null`.
-/
def float? (cs : List Char) : Option Value :=
  match (signOf cs).2 with
  | ['i', 'n', 'f'] | ['n', 'a', 'n'] => some .null
  | _ => decimal? cs

end ModuleLink.Toml
