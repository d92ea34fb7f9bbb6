import ModuleLink.Proofs.Decimal.Shortest
import ModuleLink.Proofs.PropertyAccess
import ModuleLink.Value.Number

/-!
This module contains the properties that accesses with a number in brackets name. The digits stand for a number of
double precision, and the property has the name of that number: the shortest numeral that is rounded to it.
-/

namespace ModuleLink

namespace Value

def keyForm : NumberForm := ⟨-5, 21, "+"⟩

/--
The name of the property that a number stands for. A whole number has no point.
-/
def keyText (n : Decimal.Numeral) : String :=
  if n.digits.length ≤ n.point ∧ n.point ≤ keyForm.greatestPoint then
    digitText n.digits ++ zeros (n.point.toNat - n.digits.length)
  else
    numeralText keyForm n

def mostPlaces : Nat := 1024

def infinite : Nat := Nat.pow 2 mostPlaces

def numericKey (n : Nat) : String :=
  if n = 0 then "0"
  else if infinite ≤ Decimal.nearest n then "Infinity"
  else keyText (Decimal.Binary.ofWhole (Decimal.nearest n)).shortest

theorem toNat_of_isDigit {c : Char} (h : c.isDigit) : 48 ≤ c.toNat ∧ c.toNat ≤ 57 := by
  simpa [Char.isDigit, UInt32.le_iff_toNat_le] using h

theorem sub_lt_of_isDigit {c : Char} (h : c.isDigit) : c.toNat - '0'.toNat < 10 := by
  have hrange := toNat_of_isDigit h
  change c.toNat - 48 < 10
  omega

theorem digitChar_of_isDigit {c : Char} (h : c.isDigit) : Nat.digitChar (c.toNat - '0'.toNat) = c := by
  have hrange := toNat_of_isDigit h
  apply Char.toNat_inj.1
  change (Nat.digitChar (c.toNat - 48)).toNat = c.toNat
  rw [Nat.toNat_digitChar_of_lt_ten (by omega)]
  omega

theorem map_digitChar_digitsOf (v : Nat) : (Decimal.digitsOf v).map Nat.digitChar = Nat.toDigits 10 v := by
  unfold Decimal.digitsOf
  rw [List.map_map]
  conv_rhs => rw [← List.map_id (Nat.toDigits 10 v)]
  apply List.map_congr_left
  intro c hc
  exact digitChar_of_isDigit (Nat.isDigit_of_mem_toDigits (by decide) (by decide) hc)

theorem exists_digits_append (v : Nat)
    : ∃ k, Decimal.digitsOf v = (Decimal.Numeral.ofWhole v).digits ++ List.replicate k 0 := by
  refine ⟨((Decimal.digitsOf v).rtakeWhile (· == 0)).length, ?_⟩
  have hzeros : ∀ d ∈ (Decimal.digitsOf v).rtakeWhile (· == 0), d = 0 := by
    intro d hd
    have hzero := List.mem_rtakeWhile_imp hd
    exact beq_iff_eq.1 hzero
  rw [← List.eq_replicate_of_mem hzeros]
  exact List.rdropWhile_append_rtakeWhile.symm

theorem keyText_ofWhole {v : Nat} (h : v < 10 ^ 21) : keyText (.ofWhole v) = toString v := by
  obtain ⟨k, hk⟩ := exists_digits_append v
  have hlength := congrArg List.length hk
  rw [List.length_append, List.length_replicate] at hlength
  have hpoint : (Decimal.Numeral.ofWhole v).point = (Decimal.digitsOf v).length := rfl
  have hplaces := (Decimal.length_digitsOf_le_iff (by decide)).2 h
  unfold keyText
  rw [hpoint, if_pos ⟨by omega, Int.ofNat_le.2 hplaces⟩, Int.toNat_natCast, hlength, Nat.add_sub_cancel_left]
  have htext : ((Decimal.Numeral.ofWhole v).digits.map Nat.digitChar) ++ List.replicate k '0' = Nat.toDigits 10 v := by
    rw [← map_digitChar_digitsOf v, hk, List.map_append, List.map_replicate]
    rfl
  change digitText _ ++ zeros k = Nat.repr v
  unfold digitText zeros
  rw [← String.ofList_append, htext, Nat.repr_eq_ofList_toDigits]

theorem mem_keyText_ofWhole {v : Nat} (h : 10 ^ 21 ≤ v) : 'e' ∈ (keyText (.ofWhole v)).toList := by
  have hplaces : ¬(Decimal.digitsOf v).length ≤ 21 :=
    fun hle => Nat.not_lt_of_le h ((Decimal.length_digitsOf_le_iff (by decide)).1 hle)
  have hpoint : ¬(Decimal.Numeral.ofWhole v).point ≤ keyForm.greatestPoint := fun hle => hplaces (Int.ofNat_le.1 hle)
  unfold keyText numeralText
  rw [if_neg fun hsize => hpoint hsize.2, if_neg fun hsize => hpoint hsize.2]
  have hexponent (e : Int) : 'e' ∈ (exponentText keyForm e).toList := by
    unfold exponentText
    simp
  split
  all_goals
    rw [String.toList_append]
    exact List.mem_append_right _ (hexponent _)

theorem infinite_le {k : Nat} (hk : mostPlaces ≤ 3 * k) : infinite ≤ 10 ^ k := by
  have hpow : (2 ^ 3) ^ k ≤ 10 ^ k := Nat.pow_le_pow_left (by decide) k
  rw [← Nat.pow_mul] at hpow
  unfold infinite
  generalize mostPlaces = places at hk ⊢
  exact Nat.le_trans (Nat.pow_le_pow_right Nat.two_pos hk) hpow

theorem two_pow_lt_infinite {k : Nat} (hk : k < mostPlaces) : 2 ^ k < infinite := by
  unfold infinite
  generalize mostPlaces = places at hk ⊢
  exact Nat.pow_lt_pow_right Nat.one_lt_two hk

theorem ofDigitChars_toString (n : Nat) : Nat.ofDigitChars 10 (toString n).toList 0 = n := by
  rw [Nat.toString_eq_repr, Nat.toList_repr]
  exact Nat.ofDigitChars_toDigits (by decide) (by decide)

theorem isDigit_of_mem_toString {c : Char} {n : Nat} (h : c ∈ (toString n).toList) : c.isDigit := by
  rw [Nat.toString_eq_repr, Nat.toList_repr] at h
  exact Nat.isDigit_of_mem_toDigits (by decide) (by decide) h

theorem exists_numericKey_eq {n : Nat} (hn : 0 < n) (hfinite : Decimal.nearest n < infinite)
    : ∃ v, numericKey n = keyText (.ofWhole v) ∧ 0 < v ∧ Decimal.nearest v = Decimal.nearest n ∧
        Decimal.IsShortest v := by
  have hpos := Decimal.nearest_pos_iff.2 hn
  have hwhole := Decimal.Binary.whole_ofWhole hpos (Decimal.nearest_nearest n)
  have hlimit : Decimal.nearest n < 10 ^ 370 := Nat.lt_of_lt_of_le hfinite (infinite_le (by decide))
  obtain ⟨v, hv, hnearest, hshortest⟩ := hwhole.shortest_eq hlimit
  refine ⟨v, ?_, Decimal.nearest_pos_iff.1 (hnearest ▸ hpos), hnearest, hshortest⟩
  unfold numericKey
  rw [if_neg (Nat.ne_of_gt hn), if_neg (Nat.not_le_of_lt hfinite), hv]

theorem numericKey_eq_toString_iff (n : Nat) : numericKey n = toString n ↔ n < 10 ^ 21 ∧ Decimal.IsShortest n := by
  rcases Nat.eq_zero_or_pos n with rfl | hn
  · exact iff_of_true rfl ⟨by decide, Decimal.isShortest_of_lt (by decide)⟩
  · by_cases hfinite : Decimal.nearest n < infinite
    · obtain ⟨v, hv, hpos, hnearest, hshortest⟩ := exists_numericKey_eq hn hfinite
      rw [hv]
      constructor
      · intro htext
        have hlt : v < 10 ^ 21 := by
          by_contra! hge
          have hexponent := mem_keyText_ofWhole hge
          rw [htext] at hexponent
          exact absurd (isDigit_of_mem_toString hexponent) (by decide)
        have hvn : v = n := by
          rw [← ofDigitChars_toString v, ← keyText_ofWhole hlt, htext, ofDigitChars_toString]
        rw [← hvn]
        exact ⟨hlt, hshortest⟩
      · rintro ⟨hlt, hshortest'⟩
        cases hshortest.eq_of_nearest_eq hshortest' hnearest hpos
        exact keyText_ofWhole hlt
    · refine iff_of_false (fun htext => ?_) fun hsmall => hfinite ?_
      · unfold numericKey at htext
        rw [if_neg (Nat.ne_of_gt hn), if_pos (Nat.le_of_not_lt hfinite)] at htext
        have hmem : 'I' ∈ "Infinity".toList := by decide
        rw [htext] at hmem
        exact absurd (isDigit_of_mem_toString hmem) (by decide)
      · have hle : Decimal.nearest n ≤ 2 ^ 70 := Decimal.nearest_le_two_pow (Nat.lt_trans hsmall.1 (by decide))
        exact Nat.lt_of_le_of_lt hle (two_pow_lt_infinite (by decide))

theorem numericKey_eq_toString_of_lt {n : Nat} (h : n < 2 ^ 53) : numericKey n = toString n :=
  (numericKey_eq_toString_iff n).2 ⟨Nat.lt_trans h (by decide), Decimal.isShortest_of_lt h⟩

end Value

open Value

theorem toDigits_ofDigitChars {cs : List Char} (hcs : cs.all Char.isDigit) {n : Nat} (hn : 0 < n)
    : Nat.toDigits 10 (Nat.ofDigitChars 10 cs n) = Nat.toDigits 10 n ++ cs := by
  induction cs generalizing n with
  | nil => exact (List.append_nil _).symm
  | cons c cs ih =>
    rw [List.all_cons, Bool.and_eq_true] at hcs
    have hdigit := sub_lt_of_isDigit hcs.1
    have hlast := Nat.toDigits_append_toDigits (b := 10) (by decide) hn hdigit
    rw [Nat.toDigits_of_lt_base hdigit, digitChar_of_isDigit hcs.1] at hlast
    rw [Nat.ofDigitChars_cons, ih hcs.2 (by omega), ← hlast, List.append_assoc]
    rfl

theorem head?_toDigits_ne {n : Nat} (hn : 0 < n) : (Nat.toDigits 10 n).head? ≠ some '0' := by
  induction n using Nat.strongRecOn with
  | ind n ih =>
    rcases Nat.lt_or_ge n 10 with hlt | hge
    · rw [Nat.toDigits_of_lt_base hlt, List.head?_cons]
      intro hzero
      have hvalue := congrArg Char.toNat (Option.some.inj hzero)
      rw [Nat.toNat_digitChar_of_lt_ten hlt] at hvalue
      change 48 + n = 48 at hvalue
      omega
    · rw [Nat.toDigits_of_base_le (by decide) hge, List.head?_append_of_ne_nil _ Nat.toDigits_ne_nil]
      exact ih (n / 10) (by omega) (by omega)

theorem isArrayIndex_iff {name : String} : isArrayIndex name ↔ ∃ n : Nat, name = toString n := by
  constructor
  · intro h
    unfold isArrayIndex at h
    split at h
    · cases h
    · next hname =>
      refine ⟨0, String.toList_inj.1 ?_⟩
      rw [hname, Nat.toString_eq_repr, Nat.toList_repr]
      rfl
    · next c cs _ hname =>
      simp only [Bool.and_eq_true, bne_iff_ne] at h
      obtain ⟨⟨hc, hzero⟩, hcs⟩ := h
      have hrange := toNat_of_isDigit hc
      have hpos : 0 < c.toNat - '0'.toNat := by
        have hne : c.toNat ≠ 48 := fun heq => hzero (Char.toNat_inj.1 heq)
        change 0 < c.toNat - 48
        omega
      refine ⟨Nat.ofDigitChars 10 cs (c.toNat - '0'.toNat), String.toList_inj.1 ?_⟩
      rw [hname, Nat.toString_eq_repr, Nat.toList_repr, toDigits_ofDigitChars hcs hpos,
        Nat.toDigits_of_lt_base (sub_lt_of_isDigit hc), digitChar_of_isDigit hc]
      rfl
  · rintro ⟨n, rfl⟩
    have hdigits : (Nat.toDigits 10 n).all Char.isDigit :=
      List.all_eq_true.2 fun c hc => Nat.isDigit_of_mem_toDigits (by decide) (by decide) hc
    unfold isArrayIndex
    rw [Nat.toString_eq_repr, Nat.toList_repr]
    rcases Nat.eq_zero_or_pos n with rfl | hn
    · rfl
    · have hhead := head?_toDigits_ne hn
      split
      · next hnil => exact absurd hnil Nat.toDigits_ne_nil
      · rfl
      · next c cs _ hcons =>
        rw [hcons, List.head?_cons] at hhead
        rw [hcons, List.all_cons, Bool.and_eq_true] at hdigits
        simp only [Bool.and_eq_true, bne_iff_ne]
        exact ⟨⟨hdigits.1, fun hzero => hhead (congrArg some hzero)⟩, hdigits.2⟩

/--
The spellings of accesses with the property that is accessed: a number in brackets stands for its numeric value.
-/
inductive Denotes : List Char → String → Prop where
  | dotted {c : Char} {cs : List Char}
      : Identifier.isStart c → cs.all Identifier.isPart → Denotes ('.' :: c :: cs) (String.ofList (c :: cs))
  | indexed (n : Nat) : Denotes ('[' :: ((toString n).toList ++ [']'])) (numericKey n)
  | quoted {body value : List Char}
      : Spells Json.Written body value → Denotes ('[' :: '"' :: (body ++ ['"', ']'])) (String.ofList value)

def keyOf (name : String) : String :=
  if isArrayIndex name then numericKey (Nat.ofDigitChars 10 name.toList 0) else name

theorem keyOf_toString (n : Nat) : keyOf (toString n) = numericKey n := by
  unfold keyOf
  rw [if_pos (isArrayIndex_iff.2 ⟨n, rfl⟩), ofDigitChars_toString]

def Numeric (w : List Char) : Prop := ∃ c ∈ w.tail.head?, c.isDigit

theorem not_isDigit_of_isStart {c : Char} (h : Identifier.isStart c) : ¬c.isDigit := by
  intro hdigit
  have hnone : ∀ i < 10, ¬Identifier.isStart (Nat.digitChar i) := by decide
  rw [← digitChar_of_isDigit hdigit] at h
  exact hnone _ (sub_lt_of_isDigit hdigit) h

theorem numeric_accessSegment_iff {name : String} : Numeric (accessSegment name).toList ↔ isArrayIndex name := by
  unfold accessSegment Numeric
  split
  · next hindex =>
    refine iff_of_true ?_ hindex
    obtain ⟨n, rfl⟩ := isArrayIndex_iff.1 hindex
    obtain ⟨c, cs, hcons⟩ := List.exists_cons_of_ne_nil (Nat.toDigits_ne_nil (n := n) (b := 10))
    refine ⟨c, by simp [hcons], Nat.isDigit_of_mem_toDigits (b := 10) (n := n) (by decide) (by decide) ?_⟩
    rw [hcons]
    exact List.mem_cons_self
  · next hindex =>
    refine iff_of_false ?_ hindex
    split
    · next hname =>
      rintro ⟨c, hc, hdigit⟩
      unfold Identifier.isIdentifier Identifier.hasForm at hname
      rw [Bool.and_eq_true] at hname
      rw [String.toList_append] at hc
      cases hlist : name.toList with
      | nil =>
        rw [hlist] at hc
        cases hc
      | cons d ds =>
        rw [hlist] at hname hc
        cases hc
        exact not_isDigit_of_isStart (Bool.and_eq_true_iff.1 hname.1).1 hdigit
    · rintro ⟨c, hc, hdigit⟩
      unfold JsonString.encode at hc
      simp only [String.toList_append] at hc
      cases hc
      exact absurd hdigit (by decide)

theorem eq_of_access_accessSegment {name name' : String} (h : Access (accessSegment name).toList name')
    : name' = name := by
  have hnil : Access.Parted [] := by decide
  exact (eq_accessSegment h rfl fun _ => ⟨hnil, hnil⟩).2.1

namespace Denotes

theorem exists_access {w : List Char} {key : String} (h : Denotes w key) : ∃ name, Access w name := by
  cases h with
  | dotted hc hcs => exact ⟨_, .dotted hc hcs⟩
  | indexed n => exact ⟨_, Access.of_isArrayIndex (isArrayIndex_iff.2 ⟨n, rfl⟩)⟩
  | quoted hbody => exact ⟨_, .quoted hbody⟩

theorem exists_spells {text : List Char} {keys : List String} (h : Spells Denotes text keys)
    : ∃ names, Spells Access text names := by
  induction h with
  | nil => exact ⟨[], .nil⟩
  | cons hw _ ih =>
    obtain ⟨name, hname⟩ := hw.exists_access
    obtain ⟨names, hnames⟩ := ih
    exact ⟨name :: names, .cons hname hnames⟩

theorem parted_of_spells {text : List Char} {keys : List String} (h : Spells Denotes text keys)
    : Access.Parted text := by
  obtain ⟨names, hnames⟩ := exists_spells h
  have hend : Access.Parted [] := by decide
  have happend := Access.parted_append hnames hend
  rwa [List.append_nil] at happend

theorem append_ne_nil {w text : List Char} {key : String} (h : Denotes w key) : w ++ text ≠ [] := by
  cases h
  all_goals exact List.cons_ne_nil _ _

theorem of_access {w : List Char} {name : String} (h : Access w name) (hw : ¬Numeric w) : Denotes w name := by
  cases h with
  | dotted hc hcs => exact .dotted hc hcs
  | @indexed digits hne hdigits =>
    cases digits with
    | nil => exact absurd rfl hne
    | cons d digits =>
      rw [List.all_cons, Bool.and_eq_true] at hdigits
      exact absurd ⟨d, rfl, hdigits.1⟩ hw
  | quoted hbody => exact .quoted hbody

theorem access_or_indexed {w : List Char} {key : String} (h : Denotes w key)
    : (Access w key ∧ ¬Numeric w) ∨ ∃ n : Nat, Access w (toString n) ∧ key = numericKey n := by
  cases h with
  | dotted hc hcs =>
    refine .inl ⟨.dotted hc hcs, ?_⟩
    rintro ⟨_, ⟨⟩, hdigit⟩
    exact not_isDigit_of_isStart hc hdigit
  | indexed n => exact .inr ⟨n, Access.of_isArrayIndex (isArrayIndex_iff.2 ⟨n, rfl⟩), rfl⟩
  | quoted hbody =>
    refine .inl ⟨.quoted hbody, ?_⟩
    rintro ⟨_, ⟨⟩, hdigit⟩
    exact absurd hdigit (by decide)

theorem accessSegment_iff {name key : String} : Denotes (accessSegment name).toList key ↔ key = keyOf name := by
  constructor
  · intro h
    rcases h.access_or_indexed with ⟨haccess, hnumeric⟩ | ⟨n, haccess, rfl⟩
    · rw [numeric_accessSegment_iff] at hnumeric
      unfold keyOf
      rw [if_neg hnumeric]
      exact eq_of_access_accessSegment haccess
    · rw [← eq_of_access_accessSegment haccess, keyOf_toString]
  · rintro rfl
    by_cases hindex : isArrayIndex name
    · obtain ⟨n, rfl⟩ := isArrayIndex_iff.1 hindex
      unfold accessSegment
      rw [if_pos hindex, keyOf_toString]
      simpa using indexed n
    · unfold keyOf
      rw [if_neg hindex]
      exact of_access (Access.of_accessSegment name) (numeric_accessSegment_iff.not.2 hindex)

end Denotes

theorem spells_denotes_iff {path keys : List String}
    : Spells Denotes (propertyAccess path).toList keys ↔ keys = path.map keyOf := by
  induction path generalizing keys with
  | nil =>
    refine ⟨fun h => ?_, fun h => h ▸ .nil⟩
    generalize htext : (propertyAccess []).toList = text at h
    cases h with
    | nil => rfl
    | cons hw _ => exact absurd htext.symm hw.append_ne_nil
  | cons name path ih =>
    have hname : Denotes (accessSegment name).toList (keyOf name) := Denotes.accessSegment_iff.2 rfl
    rw [toList_propertyAccess_cons, List.map_cons]
    refine ⟨fun h => ?_, fun h => h ▸ .cons hname (ih.2 rfl)⟩
    generalize htext : (accessSegment name).toList ++ (propertyAccess path).toList = text at h
    cases h with
    | nil => exact absurd htext hname.append_ne_nil
    | cons hw hrest =>
      obtain ⟨name', hname'⟩ := hw.exists_access
      have hparted := Denotes.parted_of_spells (ih.2 rfl)
      obtain ⟨rfl, _, rfl⟩ := eq_accessSegment hname' htext fun _ => ⟨hparted, Denotes.parted_of_spells hrest⟩
      rw [Denotes.accessSegment_iff.1 hw, ih.1 hrest]

theorem bare_iff {name : String}
    : (∃ digits : String, digits.toList.all Char.isDigit ∧ accessSegment name = "[" ++ digits ++ "]")
        ↔ ∃ n : Nat, name = toString n := by
  rw [← isArrayIndex_iff]
  constructor
  · rintro ⟨digits, hdigits, htext⟩
    by_contra hindex
    have hlist := congrArg String.toList htext
    unfold accessSegment at hlist
    rw [if_neg hindex] at hlist
    split at hlist
    · simp only [String.toList_append] at hlist
      cases hlist
    · unfold JsonString.encode at hlist
      simp only [String.toList_append, String.toList_ofList] at hlist
      have hquoted := List.append_cancel_left (List.append_cancel_right hlist)
      rw [← hquoted, List.all_append, Bool.and_eq_true] at hdigits
      exact absurd hdigits.2 (by decide)
  · intro hindex
    obtain ⟨n, rfl⟩ := isArrayIndex_iff.1 hindex
    refine ⟨toString n, List.all_eq_true.2 fun c => isDigit_of_mem_toString, ?_⟩
    unfold accessSegment
    rw [if_pos hindex]

/--
A path has one reading as a chain of properties. A name is written as a number in brackets exactly if it is a decimal
number without leading zeros, however large it is, and all other names are read as they are. A number below `2 ^ 53` is
read as itself too. In general a number is read as itself exactly if it is below `10 ^ 21` and no other number that is
rounded to the same number of double precision ends in more zeros, or in as many and is as near.
-/
theorem propertyAccess_keys (path : List String)
    : (∀ keys, Spells Denotes (propertyAccess path).toList keys ↔ keys = path.map keyOf) ∧
      ∀ name ∈ path,
        ((∃ digits : String, digits.toList.all Char.isDigit ∧ accessSegment name = "[" ++ digits ++ "]")
          ↔ ∃ n : Nat, name = toString n) ∧
        ((¬∃ n : Nat, name = toString n) → keyOf name = name) ∧
        ∀ n : Nat, name = toString n →
          keyOf name = numericKey n ∧
          (n < 2 ^ 53 → keyOf name = name) ∧
          (keyOf name = name ↔ n < 10 ^ 21 ∧ Decimal.IsShortest n) := by
  refine ⟨fun keys => spells_denotes_iff, fun name _ => ⟨bare_iff, fun hname => ?_, ?_⟩⟩
  · unfold keyOf
    exact if_neg fun hindex => hname (isArrayIndex_iff.1 hindex)
  · rintro n rfl
    rw [keyOf_toString]
    exact ⟨rfl, numericKey_eq_toString_of_lt, numericKey_eq_toString_iff n⟩

/--
A number that is too long is written without quotes and read as another property.
-/
theorem propertyAccess_misses_key
    : accessSegment "9007199254740993" = "[9007199254740993]" ∧
      Spells Denotes (propertyAccess ["9007199254740993"]).toList ["9007199254740992"] ∧
      ¬Spells Denotes (propertyAccess ["9007199254740993"]).toList ["9007199254740993"] := by
  have hkey : ["9007199254740993"].map keyOf = ["9007199254740992"] := by decide +kernel
  rw [spells_denotes_iff, spells_denotes_iff, hkey]
  decide

namespace Sample

def serials : List String := ["9007199254740991", "9007199254740993", "07"]

end Sample

theorem propertyAccess_keys_sample
    : keyOf "9007199254740991" = "9007199254740991" ∧ keyOf "9007199254740993" ≠ "9007199254740993" ∧
      keyOf "07" = "07" ∧
      ∀ keys, Spells Denotes (propertyAccess Sample.serials).toList keys → keys ≠ Sample.serials := by
  have ⟨hreading, hnames⟩ := propertyAccess_keys Sample.serials
  have hshort := ((hnames "9007199254740991" (by decide)).2.2 9007199254740991 (by decide)).2.1 (by decide)
  have hlong := ((hnames "9007199254740993" (by decide)).2.2 9007199254740993 (by decide)).2.2
  have hzero := (hnames "07" (by decide)).2.1 fun hn => absurd (isArrayIndex_iff.2 hn) (by decide)
  have hnearest : Decimal.nearest 9007199254740993 = 9007199254740992 := by decide
  have hmisread : keyOf "9007199254740993" ≠ "9007199254740993" := by
    intro hkey
    -- The number that it is rounded to is nearer and ends in as many zeros.
    have hshortest := (hlong.1 hkey).2 9007199254740992 (by decide) (by decide) 0 (by decide)
    rw [hnearest] at hshortest
    exact absurd hshortest.2 (by decide)
  refine ⟨hshort, hmisread, hzero, fun keys hkeys heq => ?_⟩
  rw [hreading, heq] at hkeys
  injection hkeys with _ htail
  injection htail with hsecond _
  exact hmisread hsecond.symm

end ModuleLink
