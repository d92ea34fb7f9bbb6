import ModuleLink.Decimal.Shortest

/-!
This module contains the text of floating point numbers in messages: the shortest numeral, positional for
numbers of moderate size and with an exponent otherwise.
-/

namespace ModuleLink.Value

structure NumberForm where
  leastPoint : Int
  greatestPoint : Int
  plus : String

/--
Numbers from `0.00001` up to sixteen places before the point are written without an exponent; the exponents of larger
numbers have a sign.
-/
def messageForm : NumberForm := ⟨-4, 16, "+"⟩

def digitText (ds : List Nat) : String := String.ofList (ds.map Nat.digitChar)

def zeros (n : Nat) : String := String.ofList (List.replicate n '0')

def exponentText (form : NumberForm) (e : Int) : String :=
  "e" ++ (if 0 ≤ e then form.plus else "") ++ toString e

def numeralText (form : NumberForm) (n : Decimal.Numeral) : String :=
  let places := n.digits.length
  if form.leastPoint ≤ n.point ∧ n.point ≤ form.greatestPoint then
    if n.point ≤ 0 then "0." ++ zeros (-n.point).toNat ++ digitText n.digits
    else if (places : Int) ≤ n.point then
      digitText n.digits ++ zeros (n.point.toNat - places) ++ ".0"
    else digitText (n.digits.take n.point.toNat) ++ "." ++ digitText (n.digits.drop n.point.toNat)
  else
    let exponent := exponentText form (n.point - 1)
    if places = 1 then digitText n.digits ++ exponent
    else digitText (n.digits.take 1) ++ "." ++ digitText (n.digits.drop 1) ++ exponent

def floatText (x : Float) : String :=
  let bits := x.toBits.toNat
  let sign := if bits / 0x8000000000000000 = 1 then "-" else ""
  let magnitude := bits % 0x8000000000000000
  if magnitude = 0 then sign ++ "0.0"
  else sign ++ numeralText messageForm (Decimal.Binary.ofBits magnitude).shortest

end ModuleLink.Value
