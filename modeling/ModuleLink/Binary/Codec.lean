import ModuleLink.Data.Dict
import ModuleLink.Data.Distinct

/-!
This module contains binary forms of basic values. A number takes one byte if it is small, and otherwise a
mark and as many bytes as it needs, the least significant first. Texts, lists and maps begin with their
length.
-/

namespace ModuleLink.Binary

abbrev Bytes := List UInt8

def decodeText? (bs : Bytes) : Option String := String.fromUTF8? ⟨bs.toArray⟩

abbrev Decoder := StateT Bytes Option

structure Codec (α : Type) where
  encode : α → Bytes
  decode : Decoder α

variable {α β : Type}

def byte : Decoder UInt8
  | [] => none
  | b :: bs => some (b, bs)

def chunk (n : Nat) : Decoder Bytes := fun bs =>
  if n ≤ bs.length then some (bs.splitAt n) else none

def littleEndian : (width : Nat) → Nat → Bytes
  | 0, _ => []
  | w + 1, n => UInt8.ofNat (n % 256) :: littleEndian w (n / 256)

def ofLittleEndian : Bytes → Nat
  | [] => 0
  | b :: bs => b.toNat + 256 * ofLittleEndian bs

def encodeNat (n : Nat) : Bytes :=
  if n < 251 then [UInt8.ofNat n]
  else if n < 0x10000 then 251 :: littleEndian 2 n
  else if n < 0x100000000 then 252 :: littleEndian 4 n
  else 253 :: littleEndian 8 n

def decodeNat (width : Nat) : Decoder Nat := do
  let b ← byte
  let sized (w : Nat) : Decoder Nat := do
    if width < w then failure
    return ofLittleEndian (← chunk w)
  if b < 251 then return b.toNat
  else if b = 251 then sized 2
  else if b = 252 then sized 4
  else if b = 253 then sized 8
  else failure

namespace Codec

def word : Codec Nat := ⟨encodeNat, decodeNat 4⟩

def length : Codec Nat := ⟨encodeNat, decodeNat 8⟩

/--
Whole numbers of 32 bits with a sign: by turns the non-negative and the negative ones.
-/
def signed : Codec Int where
  encode n := encodeNat (if 0 ≤ n then 2 * n.toNat else 2 * (-n).toNat - 1)
  decode := do
    let n ← decodeNat 4
    return if n % 2 = 0 then (n / 2 : Nat) else -((n / 2 + 1 : Nat) : Int)

def bool : Codec Bool where
  encode b := [if b then 1 else 0]
  decode := do
    let b ← byte
    if b = 0 then return false
    else if b = 1 then return true
    else failure

def map (c : Codec α) (build : α → β) (part : β → α) : Codec β where
  encode b := c.encode (part b)
  decode := do return build (← c.decode)

def option (c : Codec α) : Codec (Option α) where
  encode
    | none => [0]
    | some a => 1 :: c.encode a
  decode := do
    let b ← byte
    if b = 0 then return none
    else if b = 1 then return some (← c.decode)
    else failure

def pair (c : Codec α) (d : Codec β) : Codec (α × β) where
  encode p := c.encode p.1 ++ d.encode p.2
  decode := do
    let a ← c.decode
    let b ← d.decode
    return (a, b)

def decodeMany (d : Decoder α) : Nat → Decoder (List α)
  | 0 => return []
  | n + 1 => do
    let a ← d
    let as ← decodeMany d n
    return a :: as

def list (c : Codec α) : Codec (List α) where
  encode as := length.encode as.length ++ as.flatMap c.encode
  decode := do decodeMany c.decode (← length.decode)

def array (c : Codec α) : Codec (Array α) := c.list.map List.toArray Array.toList

def distinct [BEq α] (c : Codec α) : Codec (List α) := c.list.map ModuleLink.distinct id

def dict [BEq α] (c : Codec α) (d : Codec β) : Codec (Dict α β) :=
  (c.pair d).list.map Dict.ofList Dict.entries

def text : Codec String where
  encode s := length.encode s.utf8ByteSize ++ s.toUTF8.toList
  decode := do
    let bs ← chunk (← length.decode)
    match decodeText? bs with
    | some s => return s
    | none => failure

def choice [BEq α] (values : List α) : Codec α where
  encode a := encodeNat (values.idxOf a)
  decode := do
    match values[← decodeNat 4]? with
    | some a => return a
    | none => failure

end Codec
end ModuleLink.Binary
