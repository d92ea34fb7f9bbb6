import ModuleLink.Text.Raw

/-!
This module contains the proof that the bytes of a text are read back as the text, and that bytes which are not those
of a text are not.
-/

namespace ModuleLink
namespace RawText

theorem bytes_ofString (s : String) : (ofString s).bytes = s.toList.flatMap String.utf8EncodeChar := by
  unfold ofString
  rw [← String.utf8Encode_toList, List.utf8Encode, List.data_toByteArray, List.toList_toArray]

namespace Reader

theorem read_cons (r : Reader) (b : UInt8) (bs : List UInt8)
    : r.read (b :: bs) = (r.next b).1 ++ (r.next b).2.read bs := by
  cases r <;> rfl

theorem toNat_ofNat {n : Nat} (h : n < 256) : (UInt8.ofNat n).toNat = n := UInt8.toNat_ofNat_of_lt' h

theorem next_last {least most value n : Nat} (hleast : least ≤ n + 128) (hmost : n + 128 ≤ most) (hn : n < 64)
    : (inside 1 least most value).next (UInt8.ofNat (n + 128)) = ([Char.ofNat (value * 64 + n)], between) := by
  rw [next, toNat_ofNat (by omega), if_pos ⟨hleast, hmost⟩, Nat.add_sub_cancel]
  rfl

theorem next_inner {missing least most value n : Nat} (hleast : least ≤ n + 128) (hmost : n + 128 ≤ most)
    (hn : n < 64)
    : (inside (missing + 2) least most value).next (UInt8.ofNat (n + 128))
        =
      ([], inside (missing + 1) 0x80 0xBF (value * 64 + n)) := by
  rw [next, toNat_ofNat (by omega), if_pos ⟨hleast, hmost⟩, Nat.add_sub_cancel]
  rfl

theorem first_one {n : Nat} (h : n < 0x80) : first (UInt8.ofNat n) = ([Char.ofNat n], between) := by
  rw [first, toNat_ofNat (by omega), if_pos h]

theorem first_two {n : Nat} (h : 0xC2 ≤ n) (h' : n < 0xE0)
    : first (UInt8.ofNat n) = ([], inside 1 0x80 0xBF (n - 0xC0)) := by
  rw [first, toNat_ofNat (by omega), if_neg (by omega), if_neg (by omega), if_pos h']

theorem first_three {n : Nat} (h : 0xE0 ≤ n) (h' : n < 0xF0)
    : first (UInt8.ofNat n)
        =
      ([], inside 2 (if n = 0xE0 then 0xA0 else 0x80) (if n = 0xED then 0x9F else 0xBF) (n - 0xE0)) := by
  rw [first, toNat_ofNat (by omega), if_neg (by omega), if_neg (by omega), if_neg (by omega), if_pos h']

theorem first_four {n : Nat} (h : 0xF0 ≤ n) (h' : n < 0xF5)
    : first (UInt8.ofNat n)
        =
      ([], inside 3 (if n = 0xF0 then 0x90 else 0x80) (if n = 0xF4 then 0x8F else 0xBF) (n - 0xF0)) := by
  rw [first, toNat_ofNat (by omega), if_neg (by omega), if_neg (by omega), if_neg (by omega), if_neg (by omega),
    if_pos h']

theorem read_one {v : Nat} (hv : v ≤ 127) (bs : List UInt8)
    : between.read (UInt8.ofNat v :: bs) = Char.ofNat v :: between.read bs := by
  rw [read_cons, next, first_one (by omega)]
  rfl

theorem read_two {v : Nat} (hlow : 127 < v) (hv : v ≤ 2047) (bs : List UInt8)
    : between.read (UInt8.ofNat (v / 64 % 32 + 192) :: UInt8.ofNat (v % 64 + 128) :: bs)
        =
      Char.ofNat v :: between.read bs := by
  have hvalue : (v / 64 % 32 + 192 - 192) * 64 + v % 64 = v := by omega
  rw [read_cons, next, first_two (by omega) (by omega), read_cons, next_last (by omega) (by omega) (by omega), hvalue]
  rfl

theorem read_three {v : Nat} (hlow : 2047 < v) (hv : v ≤ 65535) (hvalid : v < 55296 ∨ 57343 < v)
    (bs : List UInt8)
    : between.read (UInt8.ofNat (v / 4096 % 16 + 224) :: UInt8.ofNat (v / 64 % 64 + 128) ::
        UInt8.ofNat (v % 64 + 128) :: bs)
        =
      Char.ofNat v :: between.read bs := by
  -- The second byte of a character is in range since short forms and surrogates are no characters of three bytes.
  have hvalue : ((v / 4096 % 16 + 224 - 224) * 64 + v / 64 % 64) * 64 + v % 64 = v := by omega
  rw [read_cons, next, first_three (by omega) (by omega), read_cons,
    next_inner (by split <;> omega) (by split <;> omega) (by omega), read_cons,
    next_last (by omega) (by omega) (by omega), hvalue]
  rfl

theorem read_four {v : Nat} (hlow : 65535 < v) (hv : v < 1114112) (bs : List UInt8)
    : between.read (UInt8.ofNat (v / 262144 % 8 + 240) :: UInt8.ofNat (v / 4096 % 64 + 128) ::
        UInt8.ofNat (v / 64 % 64 + 128) :: UInt8.ofNat (v % 64 + 128) :: bs)
        =
      Char.ofNat v :: between.read bs := by
  have hvalue
      : (((v / 262144 % 8 + 240 - 240) * 64 + v / 4096 % 64) * 64 + v / 64 % 64) * 64 + v % 64 = v := by omega
  rw [read_cons, next, first_four (by omega) (by omega), read_cons,
    next_inner (by split <;> omega) (by split <;> omega) (by omega), read_cons,
    next_inner (by omega) (by omega) (by omega), read_cons, next_last (by omega) (by omega) (by omega), hvalue]
  rfl

theorem read_utf8EncodeChar (c : Char) (bs : List UInt8)
    : between.read (String.utf8EncodeChar c ++ bs) = c :: between.read bs := by
  have hchar : Char.ofNat c.val.toNat = c := c.ofNat_toNat
  have hvalid : c.val.toNat < 55296 ∨ 57343 < c.val.toNat ∧ c.val.toNat < 1114112 := c.valid
  unfold String.utf8EncodeChar
  dsimp only
  split
  · next hone => exact (read_one hone bs).trans (by rw [hchar])
  split
  · next hone htwo => exact (read_two (by omega) htwo bs).trans (by rw [hchar])
  split
  · next htwo hthree => exact (read_three (by omega) hthree (by omega) bs).trans (by rw [hchar])
  · next hthree => exact (read_four (by omega) (by omega) bs).trans (by rw [hchar])

theorem read_flatMap (cs : List Char) : between.read (cs.flatMap String.utf8EncodeChar) = cs := by
  induction cs with
  | nil => rfl
  | cons c cs ih => rw [List.flatMap_cons, read_utf8EncodeChar, ih]

end Reader

@[simp]
theorem toText_ofString (s : String) : (ofString s).toText = s := by
  unfold toText
  rw [bytes_ofString, Reader.read_flatMap, String.ofList_toList]

def IsText (r : RawText) : Prop := ofString r.toText = r

instance (r : RawText) : Decidable r.IsText := inferInstanceAs (Decidable (ofString r.toText = r))

theorem isText_ofString (s : String) : (ofString s).IsText := by
  unfold IsText
  rw [toText_ofString]

theorem isText_iff {bs : List UInt8} : IsText ⟨bs⟩ ↔ ∃ cs : List Char, bs = cs.flatMap String.utf8EncodeChar := by
  constructor
  · intro h
    have hbytes := congrArg bytes h
    rw [bytes_ofString] at hbytes
    exact ⟨_, hbytes.symm⟩
  · rintro ⟨cs, rfl⟩
    have htext := isText_ofString (String.ofList cs)
    unfold ofString at htext
    rwa [String.toByteArray_ofList, List.utf8Encode, List.data_toByteArray, List.toList_toArray] at htext

theorem IsText.append {bs bs' : List UInt8} (h : IsText ⟨bs⟩) (h' : IsText ⟨bs'⟩) : IsText ⟨bs ++ bs'⟩ := by
  obtain ⟨cs, rfl⟩ := isText_iff.1 h
  obtain ⟨cs', rfl⟩ := isText_iff.1 h'
  exact isText_iff.2 ⟨cs ++ cs', List.flatMap_append.symm⟩

theorem le_of_mem_utf8EncodeChar {c : Char} {b : UInt8} (hc : 127 < c.val.toNat) (h : b ∈ String.utf8EncodeChar c)
    : 128 ≤ b.toNat := by
  have hbyte {n : Nat} (hle : 128 ≤ n) (hlt : n < 256) : 128 ≤ (UInt8.ofNat n).toNat := by
    rwa [Reader.toNat_ofNat hlt]
  unfold String.utf8EncodeChar at h
  dsimp only at h
  rw [if_neg (by omega)] at h
  split at h
  · simp only [List.mem_cons, List.not_mem_nil, or_false] at h
    rcases h with rfl | rfl <;> exact hbyte (by omega) (by omega)
  split at h
  · simp only [List.mem_cons, List.not_mem_nil, or_false] at h
    rcases h with rfl | rfl | rfl <;> exact hbyte (by omega) (by omega)
  · simp only [List.mem_cons, List.not_mem_nil, or_false] at h
    rcases h with rfl | rfl | rfl | rfl <;> exact hbyte (by omega) (by omega)

theorem utf8EncodeChar_eq_singleton {c : Char} (h : c.val.toNat ≤ 127)
    : String.utf8EncodeChar c = [UInt8.ofNat c.val.toNat] := by
  unfold String.utf8EncodeChar
  dsimp only
  rw [if_pos h]

end RawText
end ModuleLink
