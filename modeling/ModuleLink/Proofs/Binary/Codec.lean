import ModuleLink.Binary.Codec
import ModuleLink.Proofs.Basic

/-!
This module contains the proof that the binary forms of basic values are read back as what was written, whatever
comes after them. A length is written as a number of 64 bits. It is that of a list of which every element takes a byte,
so that it is enough to bound the number of bytes.
-/

namespace ModuleLink.Binary

def wordLimit : Nat := 0x100000000

def lengthLimit : Nat := 0x10000000000000000

variable {α β : Type}

theorem length_littleEndian (w n : Nat) : (littleEndian w n).length = w := by
  induction w generalizing n with
  | zero => rfl
  | succ w ih => rw [littleEndian, List.length_cons, ih]

theorem ofLittleEndian_littleEndian {w n : Nat} (h : n < Nat.pow 256 w) : ofLittleEndian (littleEndian w n) = n := by
  induction w generalizing n with
  | zero => exact (Nat.lt_one_iff.1 h).symm
  | succ w ih =>
    have hquotient : n / 256 < Nat.pow 256 w := Nat.div_lt_of_lt_mul (Nat.mul_comm .. ▸ h)
    have hbyte : n % 256 < UInt8.size := Nat.mod_lt n (by decide)
    rw [littleEndian, ofLittleEndian, ih hquotient, UInt8.toNat_ofNat_of_lt' hbyte]
    exact Nat.mod_add_div n 256

theorem chunk_append {n : Nat} {bs : Bytes} (h : bs.length = n) (rest : Bytes)
    : chunk n (bs ++ rest) = some (bs, rest) := by
  subst h
  unfold chunk
  rw [if_pos (by simp), List.splitAt_eq, List.take_left, List.drop_left]

theorem bind_eq_of_some {d : Decoder α} {f : α → Decoder β} {a : α} {bs rest : Bytes} (h : d bs = some (a, rest))
    : (d >>= f) bs = f a rest := by
  change (d bs >>= fun p => f p.1 p.2) = _
  rw [h]
  rfl

theorem bind_byte (f : UInt8 → Decoder β) (b : UInt8) (bs : Bytes) : (byte >>= f) (b :: bs) = f b bs := rfl

theorem decodeNat_small {n : Nat} (h : n < 251) (width : Nat) (rest : Bytes)
    : decodeNat width (UInt8.ofNat n :: rest) = some (n, rest) := by
  have hbyte : (UInt8.ofNat n).toNat = n := UInt8.toNat_ofNat_of_lt' (Nat.lt_trans h (by decide))
  have hlt : UInt8.ofNat n < 251 := by
    rw [UInt8.lt_iff_toNat_lt, hbyte]
    exact h
  refine (bind_byte _ _ rest).trans ?_
  dsimp only
  rw [if_pos hlt, hbyte]
  rfl

theorem decodeNat_marked {mark : UInt8} {w n width : Nat} (hmark : (mark, w) ∈ [(251, 2), (252, 4), (253, 8)])
    (hw : w ≤ width) (hn : n < Nat.pow 256 w) (rest : Bytes)
    : decodeNat width (mark :: (littleEndian w n ++ rest)) = some (n, rest) := by
  have hsized : (do
      if width < w then failure
      return ofLittleEndian (← chunk w) : Decoder Nat) (littleEndian w n ++ rest) = some (n, rest) := by
    rw [if_neg (Nat.not_lt.2 hw)]
    refine (bind_eq_of_some (chunk_append (length_littleEndian w n) rest)).trans ?_
    rw [ofLittleEndian_littleEndian hn]
    rfl
  refine (bind_byte _ _ (littleEndian w n ++ rest)).trans ?_
  simp only [List.mem_cons, Prod.mk.injEq, List.not_mem_nil, or_false] at hmark
  rcases hmark with ⟨rfl, rfl⟩ | ⟨rfl, rfl⟩ | ⟨rfl, rfl⟩ <;> exact hsized

theorem decodeNat_encodeNat {n width : Nat} (hwidth : 4 ≤ width ∧ n < wordLimit ∨ 8 ≤ width ∧ n < lengthLimit)
    (rest : Bytes) : decodeNat width (encodeNat n ++ rest) = some (n, rest) := by
  unfold wordLimit lengthLimit at hwidth
  unfold encodeNat
  split
  · next hsmall => exact decodeNat_small hsmall width rest
  · split
    · next htwo => exact decodeNat_marked (w := 2) (by simp) (by omega) htwo rest
    · split
      · next hfour => exact decodeNat_marked (w := 4) (by simp) (by omega) hfour rest
      · next hlarge =>
        have ⟨height, hn⟩ : 8 ≤ width ∧ n < 0x10000000000000000 := by omega
        exact decodeNat_marked (w := 8) (by simp) height hn rest

theorem toList_loop (bs : ByteArray) (i : Nat) (taken : List UInt8)
    : ByteArray.toList.loop bs i taken = taken.reverse ++ bs.data.toList.drop i := by
  unfold ByteArray.toList.loop
  split
  · next hi =>
    have hdata : i < bs.data.toList.length := hi
    have hbyte : bs.get! i = bs.data.toList[i] := getElem!_pos bs.data i hi
    rw [toList_loop, List.drop_eq_getElem_cons hdata, List.reverse_cons, List.append_assoc, hbyte]
    rfl
  · next hi =>
    have hdata : bs.data.toList.length ≤ i := Nat.not_lt.1 hi
    rw [List.drop_eq_nil_of_le hdata, List.append_nil]
termination_by bs.size - i

theorem toList_eq_data (bs : ByteArray) : bs.toList = bs.data.toList := by
  rw [ByteArray.toList, toList_loop]
  rfl

theorem decodeText?_toUTF8 (s : String) : decodeText? s.toUTF8.toList = some s := by
  have hbytes : ByteArray.mk s.toUTF8.toList.toArray = s.toByteArray := by
    rw [toList_eq_data]
    rfl
  unfold decodeText? String.fromUTF8?
  rw [hbytes, dif_pos s.isValidUTF8]
  rfl

theorem encodeNat_ne_nil (n : Nat) : encodeNat n ≠ [] := by
  unfold encodeNat
  split
  · simp
  · split
    · simp
    · split <;> simp

namespace Codec

/--
The form of `a` takes some bytes, which are read as `b` while all bytes can be counted.
-/
structure Rereads (c : Codec α) (a b : α) : Prop where
  nonempty : c.encode a ≠ []
  decode : ∀ rest, (c.encode a ++ rest).length < lengthLimit → c.decode (c.encode a ++ rest) = some (b, rest)

abbrev Restores (c : Codec α) (a : α) : Prop := c.Rereads a a

variable {c : Codec α} {d : Codec β}

theorem Rereads.step {f : α → Decoder β} {a b : α} {tail : Bytes} {result : Option (β × Bytes)} (h : c.Rereads a b)
    (hlen : (c.encode a ++ tail).length < lengthLimit) (next : tail.length < lengthLimit → f b tail = result)
    : (c.decode >>= f) (c.encode a ++ tail) = result := by
  rw [bind_eq_of_some (h.decode tail hlen)]
  apply next
  rw [List.length_append] at hlen
  omega

namespace Restores

theorem word {n : Nat} (h : n < wordLimit) : Codec.word.Restores n where
  nonempty := encodeNat_ne_nil n
  decode rest _ := decodeNat_encodeNat (.inl ⟨Nat.le_refl 4, h⟩) rest

theorem length {n : Nat} (h : n < lengthLimit) : Codec.length.Restores n where
  nonempty := encodeNat_ne_nil n
  decode rest _ := decodeNat_encodeNat (.inr ⟨Nat.le_refl 8, h⟩) rest

theorem signed {n : Int} (hlower : -0x80000000 ≤ n) (hupper : n < 0x80000000) : Codec.signed.Restores n where
  nonempty := encodeNat_ne_nil _
  decode rest hlen := by
    have hword : (if 0 ≤ n then 2 * n.toNat else 2 * (-n).toNat - 1) < wordLimit := by
      unfold wordLimit
      split <;> omega
    refine (word hword).step hlen fun _ => ?_
    refine congrArg (fun n => some (n, rest)) ?_
    split <;> split <;> omega

theorem bool (b : Bool) : Codec.bool.Restores b where
  nonempty := by simp [Codec.bool]
  decode rest _ := by cases b <;> rfl

end Restores

namespace Rereads

variable {f : α → α}

theorem map {build : α → β} {part : β → α} {b b' : β} {a : α} (h : c.Rereads (part b) a) (hbuild : build a = b')
    : (c.map build part).Rereads b b' where
  nonempty := h.nonempty
  decode rest hlen := by
    refine h.step hlen fun _ => ?_
    rw [hbuild]
    rfl

theorem option {o : Option α} (h : ∀ a ∈ o, c.Rereads a (f a)) : c.option.Rereads o (o.map f) where
  nonempty := by cases o <;> simp [Codec.option]
  decode rest hlen := by
    cases o with
    | none => rfl
    | some a =>
      have htail : (c.encode a ++ rest).length < lengthLimit := Nat.lt_of_succ_lt hlen
      refine (bind_byte _ _ (c.encode a ++ rest)).trans ?_
      exact (h a rfl).step htail fun _ => rfl

theorem pair {p q : α × β} (hc : c.Rereads p.1 q.1) (hd : d.Rereads p.2 q.2) : (c.pair d).Rereads p q where
  nonempty := List.append_ne_nil_of_left_ne_nil hc.nonempty _
  decode rest hlen := by
    simp only [Codec.pair, List.append_assoc] at hlen ⊢
    refine hc.step hlen fun hlen => ?_
    exact hd.step hlen fun _ => rfl

theorem decodeMany {as : List α} (h : ∀ a ∈ as, c.Rereads a (f a)) {rest : Bytes}
    (hlen : (as.flatMap c.encode ++ rest).length < lengthLimit)
    : Codec.decodeMany c.decode as.length (as.flatMap c.encode ++ rest) = some (as.map f, rest) := by
  induction as with
  | nil => rfl
  | cons a as ih =>
    have ⟨ha, has⟩ := List.forall_mem_cons.1 h
    rw [List.flatMap_cons, List.append_assoc] at hlen ⊢
    refine ha.step hlen fun hlen => ?_
    rw [bind_eq_of_some (ih has hlen)]
    rfl

theorem length_le_flatMap {as : List α} (h : ∀ a ∈ as, c.Rereads a (f a))
    : as.length ≤ (as.flatMap c.encode).length := by
  induction as with
  | nil => exact Nat.le_refl 0
  | cons a as ih =>
    have ⟨ha, has⟩ := List.forall_mem_cons.1 h
    have hfirst := List.length_pos_iff.2 ha.nonempty
    have hrest := ih has
    rw [List.flatMap_cons, List.length_append, List.length_cons]
    omega

theorem list {as : List α} (h : ∀ a ∈ as, c.Rereads a (f a)) : c.list.Rereads as (as.map f) where
  nonempty := List.append_ne_nil_of_left_ne_nil (encodeNat_ne_nil _) _
  decode rest hlen := by
    have hcount : as.length < lengthLimit := by
      have hle := length_le_flatMap h
      simp only [Codec.list, List.length_append] at hlen
      omega
    simp only [Codec.list, List.append_assoc] at hlen ⊢
    exact (Restores.length hcount).step hlen fun hlen => decodeMany h hlen

theorem array {as : Array α} (h : ∀ a ∈ as, c.Rereads a (f a)) : c.array.Rereads as (as.map f) :=
  map (list fun a ha => h a (Array.mem_toList_iff.1 ha)) (by rw [← Array.toList_map])

theorem dict [BEq α] {g : β → β} {m : Dict α β} (hc : ∀ x ∈ m.entries, c.Rereads x.1 (f x.1))
    (hd : ∀ x ∈ m.entries, d.Rereads x.2 (g x.2))
    : (c.dict d).Rereads m (Dict.ofList (m.entries.map (Prod.map f g))) :=
  map (list fun x hx => pair (hc x hx) (hd x hx)) rfl

end Rereads

namespace Restores

theorem map {build : α → β} {part : β → α} {b : β} (h : c.Restores (part b)) (hbuild : build (part b) = b)
    : (c.map build part).Restores b :=
  Rereads.map h hbuild

theorem option {o : Option α} (h : ∀ a ∈ o, c.Restores a) : c.option.Restores o := by
  have hread := Rereads.option (f := id) h
  rwa [Option.map_id] at hread

theorem list {as : List α} (h : ∀ a ∈ as, c.Restores a) : c.list.Restores as := by
  have hread := Rereads.list (f := id) h
  rwa [List.map_id] at hread

theorem text (s : String) : Codec.text.Restores s where
  nonempty := List.append_ne_nil_of_left_ne_nil (encodeNat_ne_nil _) _
  decode rest hlen := by
    have hbytes : s.toUTF8.toList.length = s.utf8ByteSize := congrArg List.length (toList_eq_data s.toUTF8)
    have hsize : s.utf8ByteSize < lengthLimit := by
      simp only [Codec.text, List.length_append, hbytes] at hlen
      omega
    simp only [Codec.text, List.append_assoc] at hlen ⊢
    refine (length hsize).step hlen fun _ => ?_
    rw [bind_eq_of_some (chunk_append hbytes rest), decodeText?_toUTF8]
    rfl

theorem choice [DecidableEq α] {values : List α} {a : α} (ha : a ∈ values) (hcount : values.length ≤ wordLimit)
    : (Codec.choice values).Restores a where
  nonempty := encodeNat_ne_nil _
  decode rest hlen := by
    have hindex := List.idxOf_lt_length_of_mem ha
    have hlookup : values[values.idxOf a]? = some a := by
      rw [List.getElem?_eq_getElem hindex, List.getElem_idxOf]
    refine (word (Nat.lt_of_lt_of_le hindex hcount)).step hlen fun _ => ?_
    rw [hlookup]
    rfl

theorem array {as : Array α} (h : ∀ a ∈ as, c.Restores a) : c.array.Restores as :=
  map (list fun a ha => h a (Array.mem_toList_iff.1 ha)) rfl

theorem distinct [DecidableEq α] {as : List α} (h : ∀ a ∈ as, c.Restores a) (has : as.Nodup)
    : c.distinct.Restores as :=
  map (list h) (distinct_of_nodup has)

theorem dict [BEq α] {m : Dict α β} (hc : ∀ x ∈ m.entries, c.Restores x.1) (hd : ∀ x ∈ m.entries, d.Restores x.2)
    (hm : m.DistinctKeys) : (c.dict d).Restores m :=
  map (list fun x hx => Rereads.pair (hc x hx) (hd x hx)) (Dict.ofList_entries hm)

end Restores
end Codec
end ModuleLink.Binary
