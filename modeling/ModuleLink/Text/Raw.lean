/-!
This module contains texts as a file system has them: bytes, which need not be those of a text in UTF-8. Where a
text is made of them, every sequence of bytes that cannot belong to a character gives way to one mark.
-/

namespace ModuleLink

structure RawText where
  bytes : List UInt8
deriving DecidableEq, Ord, Repr, Inhabited

namespace RawText

def ofString (s : String) : RawText := ⟨s.toByteArray.data.toList⟩

instance : Coe String RawText := ⟨ofString⟩

instance : Append RawText := ⟨fun a b => ⟨a.bytes ++ b.bytes⟩⟩

def replacement : Char := '�'

/--
How far a reader is. Inside a character it knows how many bytes are missing, the range of the next one, and the number
that the bytes so far denote.
-/
inductive Reader where
  | between
  | inside (missing least most value : Nat)

namespace Reader

def first (b : UInt8) : List Char × Reader :=
  let n := b.toNat
  if n < 0x80 then ([Char.ofNat n], between)
  else if n < 0xC2 then ([replacement], between)
  else if n < 0xE0 then ([], inside 1 0x80 0xBF (n - 0xC0))
  else if n < 0xF0 then
    ([], inside 2 (if n = 0xE0 then 0xA0 else 0x80) (if n = 0xED then 0x9F else 0xBF) (n - 0xE0))
  else if n < 0xF5 then
    ([], inside 3 (if n = 0xF0 then 0x90 else 0x80) (if n = 0xF4 then 0x8F else 0xBF) (n - 0xF0))
  else ([replacement], between)

def next : Reader → UInt8 → List Char × Reader
  | between, b => first b
  | inside missing least most value, b =>
    if least ≤ b.toNat ∧ b.toNat ≤ most then
      let value := value * 64 + (b.toNat - 0x80)
      if missing = 1 then ([Char.ofNat value], between) else ([], inside (missing - 1) 0x80 0xBF value)
    else
      (replacement :: (first b).1, (first b).2)

def read : Reader → List UInt8 → List Char
  | between, [] => []
  | inside .., [] => [replacement]
  | r, b :: bs => (r.next b).1 ++ (r.next b).2.read bs

end Reader

def toText (r : RawText) : String := String.ofList (Reader.between.read r.bytes)

end RawText
end ModuleLink
