/-!
This module contains the shortest decimal numerals of binary floating point numbers: among the numerals
with the fewest digits that are rounded to the number, the one nearest to it. Of two that are equally near it
is the one that ends in an even digit.
-/

namespace ModuleLink.Decimal

/--
A positive number `mantissa * 2 ^ exponent` with the distance to the number below halved at `lowGap`.
-/
structure Binary where
  mantissa : Nat
  exponent : Int
  lowGap : Bool
deriving DecidableEq, Repr

def Binary.ofBits (bits : Nat) : Binary :=
  let fraction : Nat := bits % 0x10000000000000
  let biased : Nat := bits / 0x10000000000000 % 0x800
  if biased = 0 then ⟨fraction, -1074, false⟩
  else ⟨0x10000000000000 + fraction, (biased : Int) - 1075, fraction = 0 ∧ 1 < biased⟩

structure Numeral where
  digits : List Nat
  point : Int
deriving DecidableEq, Repr

def pointFrom (num den : Nat) (start : Int) : Nat → Int
  | 0 => start
  | n + 1 =>
    let below :=
      if 0 ≤ start then num < den * Nat.pow 10 start.toNat else num * Nat.pow 10 (-start).toNat < den
    if below then start else pointFrom num den (start + 1) n

/--
The integer `c` for which `c / 10 ^ (n - point)` is rounded to `x` and nearest to it, if there is one; the even one, if
two are equally near. The numbers that are rounded to `x` reach halfway to its neighbours; the ends belong to them if
the mantissa is even.
-/
def Binary.digits? (x : Binary) (point : Int) (n : Nat) : Option Nat :=
  let shift := (n : Int) - point
  let up := Nat.pow 2 x.exponent.toNat * Nat.pow 10 shift.toNat
  let down := Nat.pow 2 (-x.exponent).toNat * Nat.pow 10 (-shift).toNat
  let low := (4 * x.mantissa - (if x.lowGap then 1 else 2)) * up
  let high := (4 * x.mantissa + 2) * up
  let inside (c : Nat) : Bool :=
    if x.mantissa % 2 = 0 then decide (low ≤ 4 * c * down) && decide (4 * c * down ≤ high)
    else decide (low < 4 * c * down) && decide (4 * c * down < high)
  let c := x.mantissa * up / down
  let below := x.mantissa * up - c * down
  let above := (c + 1) * down - x.mantissa * up
  let nearer := if below = above then c % 2 = 0 else below < above
  if inside c && (decide nearer || !inside (c + 1)) then some c
  else if inside (c + 1) then some (c + 1)
  else none

def digitsOf (n : Nat) : List Nat := (Nat.toDigits 10 n).map fun c => c.toNat - '0'.toNat

/--
The shortest numeral of a positive number. Seventeen digits are always enough.
-/
def Binary.shortest (x : Binary) : Numeral :=
  let num := x.mantissa * Nat.pow 2 x.exponent.toNat
  let den := Nat.pow 2 (-x.exponent).toNat
  let point := pointFrom num den (-330) 700
  match (List.range 17).findSome? fun n => (x.digits? point (n + 1)).map fun c => (n + 1, c) with
  | none => ⟨digitsOf x.mantissa, point⟩
  | some (n, c) =>
    let ds := digitsOf c
    -- Rounding up may have carried into one more place.
    ⟨(ds.reverse.dropWhile (· == 0)).reverse, point + ((ds.length : Int) - n)⟩

end ModuleLink.Decimal
