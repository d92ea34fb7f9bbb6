import Mathlib.Algebra.Order.Ring.Nat
import Mathlib.Tactic.Ring
import ModuleLink.Decimal.Shortest

/-!
This module contains the rounding of whole numbers to double precision. The numbers that are rounded to the same number
form an interval, which reaches halfway to the neighbours of that number.
-/

namespace ModuleLink.Decimal

/--
The value lies between the bounds, and is none of them unless they belong to the interval.
-/
def Within (closed : Prop) (low value high : Nat) : Prop :=
  (closed → low ≤ value ∧ value ≤ high) ∧ (¬closed → low < value ∧ value < high)

def roundDiv (n u : Nat) : Nat :=
  if 2 * (n % u) < u ∨ 2 * (n % u) = u ∧ n / u % 2 = 0 then n / u else n / u + 1

def lastPlace (n : Nat) : Nat := Nat.pow 2 (n.log2 - 52)

def nearest (n : Nat) : Nat := roundDiv n (lastPlace n) * lastPlace n

namespace Within

variable {closed : Prop} {low value high : Nat}

theorem of_lt (hlow : low < value) (hhigh : value < high) : Within closed low value high :=
  ⟨fun _ => ⟨Nat.le_of_lt hlow, Nat.le_of_lt hhigh⟩, fun _ => ⟨hlow, hhigh⟩⟩

theorem bounds (h : Within closed low value high) : low ≤ value ∧ value ≤ high := by
  by_cases hclosed : closed
  · exact h.1 hclosed
  · exact ⟨Nat.le_of_lt (h.2 hclosed).1, Nat.le_of_lt (h.2 hclosed).2⟩

end Within

theorem le_mul_of_odd {c u : Nat} (h : ¬c % 2 = 0) : u ≤ c * u := by
  apply Nat.le_mul_of_pos_left
  omega

theorem roundDiv_eq_iff {n u c : Nat} (hu : 0 < u)
    : roundDiv n u = c ↔ Within (c % 2 = 0) ((4 * c - 2) * u) (4 * n) ((4 * c + 2) * u) := by
  have hn : n / u * u + n % u = n := by
    rw [Nat.mul_comm]
    exact Nat.div_add_mod n u
  have hr := Nat.mod_lt n hu
  have hlow : (4 * c - 2) * u = 4 * (c * u) - 2 * u := by
    rw [Nat.sub_mul, Nat.mul_assoc]
  have hhigh : (4 * c + 2) * u = 4 * (c * u) + 2 * u := by
    rw [Nat.add_mul, Nat.mul_assoc]
  have hodd : ¬c % 2 = 0 → u ≤ c * u := le_mul_of_odd
  unfold roundDiv Within
  rw [hlow, hhigh]
  generalize n / u = q at *
  generalize n % u = r at *
  obtain hc | rfl | rfl | hc : c + 1 ≤ q ∨ c = q ∨ c = q + 1 ∨ q + 2 ≤ c := by omega
  · have hle := Nat.mul_le_mul_right u hc
    rw [Nat.add_mul] at hle
    split <;> omega
  · split <;> omega
  · rw [Nat.add_mul] at *
    split <;> omega
  · have hle := Nat.mul_le_mul_right u hc
    rw [Nat.add_mul] at hle
    split <;> omega

theorem roundDiv_mul {m u : Nat} (hu : 0 < u) : roundDiv (m * u) u = m := by
  apply (roundDiv_eq_iff hu).2
  unfold Within
  rw [Nat.sub_mul, Nat.add_mul, Nat.mul_assoc]
  have hodd : ¬m % 2 = 0 → u ≤ m * u := le_mul_of_odd
  omega

theorem roundDiv_mono {a b u : Nat} (hu : 0 < u) (h : a ≤ b) : roundDiv a u ≤ roundDiv b u := by
  have ha := (roundDiv_eq_iff hu).1 (rfl : roundDiv a u = _)
  have hb := (roundDiv_eq_iff hu).1 (rfl : roundDiv b u = _)
  generalize roundDiv a u = c at *
  generalize roundDiv b u = d at *
  by_contra! hlt
  -- The upper bound of `d` is at most the lower bound of `c`, and consecutive numbers do not share it.
  have hbound : (4 * d + 2) * u ≤ (4 * c - 2) * u := Nat.mul_le_mul_right u (by omega)
  have heq : (4 * d + 2) * u = (4 * c - 2) * u := by
    unfold Within at ha hb
    omega
  have hnext := Nat.eq_of_mul_eq_mul_right hu heq
  unfold Within at ha hb
  omega

theorem lastPlace_of_lt {n : Nat} (h : n < 2 ^ 53) : lastPlace n = 1 := by
  have hlog : n.log2 - 52 = 0 := by
    by_cases hn : n = 0
    · rw [hn]
      rfl
    · have hlt := (Nat.log2_lt hn).2 h
      omega
  unfold lastPlace
  rw [hlog]

theorem lastPlace_of_binade {n e : Nat} (hlow : 2 ^ (52 + e) ≤ n) (hhigh : n < 2 ^ (53 + e)) : lastPlace n = 2 ^ e := by
  have hn : n ≠ 0 := Nat.ne_of_gt (Nat.lt_of_lt_of_le (Nat.two_pow_pos _) hlow)
  have hlog : n.log2 = 52 + e := by
    apply (Nat.log2_eq_iff hn).2
    rw [Nat.add_right_comm]
    exact ⟨hlow, hhigh⟩
  unfold lastPlace
  rw [hlog, Nat.add_sub_cancel_left]
  rfl

theorem nearest_of_lt {n : Nat} (h : n < 2 ^ 53) : nearest n = n := by
  have hround := roundDiv_mul (m := n) Nat.one_pos
  unfold nearest
  rw [Nat.mul_one] at hround
  rw [lastPlace_of_lt h, hround, Nat.mul_one]

theorem exists_binade {n : Nat} (h : 2 ^ 53 ≤ n) : ∃ e, 0 < e ∧ 2 ^ (52 + e) ≤ n ∧ n < 2 ^ (53 + e) := by
  have hn : n ≠ 0 := by omega
  have hlog := (Nat.le_log2 hn).2 h
  refine ⟨n.log2 - 52, by omega, ?_, ?_⟩
  · rw [Nat.add_sub_cancel' (by omega)]
    exact Nat.log2_self_le hn
  · rw [show 53 + (n.log2 - 52) = n.log2 + 1 by omega]
    exact Nat.lt_log2_self

section Binade

variable {n e : Nat} (hlow : 2 ^ (52 + e) ≤ n) (hhigh : n < 2 ^ (53 + e))

include hlow hhigh

theorem nearest_of_binade : nearest n = roundDiv n (2 ^ e) * 2 ^ e := by
  unfold nearest
  rw [lastPlace_of_binade hlow hhigh]

theorem roundDiv_of_binade : 2 ^ 52 ≤ roundDiv n (2 ^ e) ∧ roundDiv n (2 ^ e) ≤ 2 ^ 53 := by
  have hpos := Nat.two_pow_pos e
  rw [Nat.pow_add] at hlow hhigh
  constructor
  · rw [← roundDiv_mul (m := 2 ^ 52) hpos]
    exact roundDiv_mono hpos hlow
  · rw [← roundDiv_mul (m := 2 ^ 53) hpos]
    exact roundDiv_mono hpos (Nat.le_of_lt hhigh)

theorem nearest_bounds : 2 ^ (52 + e) ≤ nearest n ∧ nearest n ≤ 2 ^ (53 + e) := by
  have ⟨hleast, hmost⟩ := roundDiv_of_binade hlow hhigh
  rw [nearest_of_binade hlow hhigh, Nat.pow_add, Nat.pow_add]
  exact ⟨Nat.mul_le_mul_right _ hleast, Nat.mul_le_mul_right _ hmost⟩

end Binade

theorem two_pow_le_nearest {n k : Nat} (h : 2 ^ k ≤ n) : 2 ^ k ≤ nearest n := by
  rcases Nat.lt_or_ge n (2 ^ 53) with hn | hn
  · rwa [nearest_of_lt hn]
  · obtain ⟨e, _, hlow, hhigh⟩ := exists_binade hn
    have hk : k < 53 + e := (Nat.pow_lt_pow_iff_right Nat.one_lt_two).1 (Nat.lt_of_le_of_lt h hhigh)
    have hpow : 2 ^ k ≤ 2 ^ (52 + e) := Nat.pow_le_pow_right Nat.two_pos (by omega)
    exact Nat.le_trans hpow (nearest_bounds hlow hhigh).1

theorem nearest_le_two_pow {n k : Nat} (h : n < 2 ^ k) : nearest n ≤ 2 ^ k := by
  rcases Nat.lt_or_ge n (2 ^ 53) with hn | hn
  · rw [nearest_of_lt hn]
    exact Nat.le_of_lt h
  · obtain ⟨e, _, hlow, hhigh⟩ := exists_binade hn
    have hk : 52 + e < k := (Nat.pow_lt_pow_iff_right Nat.one_lt_two).1 (Nat.lt_of_le_of_lt hlow h)
    have hpow : 2 ^ (53 + e) ≤ 2 ^ k := Nat.pow_le_pow_right Nat.two_pos (by omega)
    exact Nat.le_trans (nearest_bounds hlow hhigh).2 hpow

theorem nearest_mono {a b : Nat} (h : a ≤ b) : nearest a ≤ nearest b := by
  rcases Nat.lt_or_ge a (2 ^ 53) with ha | ha
  · rw [nearest_of_lt ha]
    rcases Nat.lt_or_ge b (2 ^ 53) with hb | hb
    · rwa [nearest_of_lt hb]
    · exact Nat.le_trans (Nat.le_of_lt ha) (two_pow_le_nearest hb)
  · obtain ⟨e, _, hlow, hhigh⟩ := exists_binade ha
    rcases Nat.lt_or_ge b (2 ^ (53 + e)) with hb | hb
    · rw [nearest_of_binade hlow hhigh, nearest_of_binade (Nat.le_trans hlow h) hb]
      exact Nat.mul_le_mul_right _ (roundDiv_mono (Nat.two_pow_pos e) h)
    · exact Nat.le_trans (nearest_bounds hlow hhigh).2 (two_pow_le_nearest hb)

theorem nearest_pos_iff {n : Nat} : 0 < nearest n ↔ 0 < n := by
  constructor
  · intro h
    rw [Nat.pos_iff_ne_zero]
    rintro rfl
    rw [nearest_of_lt (by decide)] at h
    exact Nat.lt_irrefl 0 h
  · intro h
    have hone := nearest_mono h
    rwa [nearest_of_lt (by decide)] at hone

theorem nearest_mul {m e : Nat} (hlow : 2 ^ 52 ≤ m) (hhigh : m < 2 ^ 53) : nearest (m * 2 ^ e) = m * 2 ^ e := by
  have hpos := Nat.two_pow_pos e
  rw [nearest_of_binade (e := e), roundDiv_mul hpos]
  · rw [Nat.pow_add]
    exact Nat.mul_le_mul_right _ hlow
  · rw [Nat.pow_add]
    exact Nat.mul_lt_mul_of_pos_right hhigh hpos

theorem nearest_nearest (n : Nat) : nearest (nearest n) = nearest n := by
  rcases Nat.lt_or_ge n (2 ^ 53) with hn | hn
  · rw [nearest_of_lt hn, nearest_of_lt hn]
  · obtain ⟨e, _, hlow, hhigh⟩ := exists_binade hn
    have ⟨hleast, hmost⟩ := roundDiv_of_binade hlow hhigh
    rw [nearest_of_binade hlow hhigh]
    rcases Nat.lt_or_eq_of_le hmost with hlt | heq
    · exact nearest_mul hleast hlt
    · -- All places of the mantissa have been carried into the exponent.
      have hcarry : 2 ^ 53 * 2 ^ e = 2 ^ 52 * 2 ^ (e + 1) := by ring
      rw [heq, hcarry]
      exact nearest_mul (Nat.le_refl _) (by decide)

theorem exists_mantissa {x : Nat} (hx : nearest x = x) (h : 2 ^ 53 ≤ x)
    : ∃ m e, 0 < e ∧ 2 ^ 52 ≤ m ∧ m < 2 ^ 53 ∧ x = m * 2 ^ e := by
  obtain ⟨e, he, hlow, hhigh⟩ := exists_binade h
  have hround := nearest_of_binade hlow hhigh
  rw [hx] at hround
  refine ⟨roundDiv x (2 ^ e), e, he, (roundDiv_of_binade hlow hhigh).1, ?_, hround⟩
  rw [hround, Nat.pow_add] at hhigh
  exact Nat.lt_of_mul_lt_mul_right hhigh

def lowReach (m : Nat) : Nat := if m = 0x10000000000000 then 1 else 2

theorem lowReach_cases (m : Nat) : m = 2 ^ 52 ∧ lowReach m = 1 ∨ m ≠ 2 ^ 52 ∧ lowReach m = 2 := by
  by_cases hm : m = 0x10000000000000
  · exact .inl ⟨hm, if_pos hm⟩
  · exact .inr ⟨hm, if_neg hm⟩

theorem nearest_eq_mul_iff_of_le {m e v : Nat} (hlow : 2 ^ (52 + e) ≤ v) (hhigh : v < 2 ^ (53 + e))
    : nearest v = m * 2 ^ e ↔ Within (m % 2 = 0) ((4 * m - lowReach m) * 2 ^ e) (4 * v) ((4 * m + 2) * 2 ^ e) := by
  have hpos := Nat.two_pow_pos e
  rw [nearest_of_binade hlow hhigh, Nat.mul_right_cancel_iff hpos, roundDiv_eq_iff hpos]
  rcases lowReach_cases m with ⟨hm, hreach⟩ | ⟨_, hreach⟩
  · -- The binade begins with this mantissa, so the lower bounds do not matter.
    have heven : m % 2 = 0 := by rw [hm]; rfl
    rw [Nat.pow_add, ← hm] at hlow
    unfold Within
    rw [hreach, Nat.sub_mul, Nat.sub_mul, Nat.mul_assoc]
    clear hm hhigh
    omega
  · rw [hreach]

theorem nearest_eq_mul_iff_of_lt {m e v : Nat} (hm : m = 2 ^ 52) (h : v < 2 ^ (52 + (e + 1)))
    : nearest v = m * 2 ^ (e + 1) ↔ (4 * m - 1) * 2 ^ (e + 1) ≤ 4 * v := by
  -- Below the binade of the least mantissa the last place is worth half as much.
  have hdouble : 2 ^ (e + 1) = 2 * 2 ^ e := by ring
  rw [Nat.pow_add, ← hm, hdouble] at h
  rw [hdouble]
  rcases Nat.lt_or_ge v (2 ^ (52 + e)) with hv | hv
  · have hless := nearest_le_two_pow hv
    rw [Nat.pow_add, ← hm] at hv hless
    have hunit : 2 ^ e ≤ m * 2 ^ e := Nat.le_mul_of_pos_left _ (by omega)
    rw [Nat.mul_left_comm, Nat.sub_mul, Nat.mul_assoc, Nat.mul_left_comm m, Nat.one_mul]
    clear hm
    omega
  · have hv' : v < 2 ^ (53 + e) := by
      have hcarry : 2 ^ (53 + e) = 2 ^ 52 * (2 * 2 ^ e) := by ring
      rwa [hcarry, ← hm]
    have hreach : lowReach (2 * m) = 2 := by rw [hm]; rfl
    have hfull := nearest_eq_mul_iff_of_le (m := 2 * m) hv hv'
    rw [Nat.mul_left_comm, ← Nat.mul_assoc, hfull, hreach]
    unfold Within
    rw [Nat.sub_mul, Nat.sub_mul, Nat.add_mul, Nat.mul_assoc, Nat.mul_assoc, Nat.mul_assoc, Nat.mul_left_comm m]
    rw [Nat.mul_left_comm] at h
    clear hm hv hv' hfull hreach
    omega

section Interval

variable {m e : Nat} (he : 0 < e) (hlow : 2 ^ 52 ≤ m) (hhigh : m < 2 ^ 53)

include he hlow hhigh

theorem nearest_eq_mul_iff {v : Nat}
    : nearest v = m * 2 ^ e ↔ Within (m % 2 = 0) ((4 * m - lowReach m) * 2 ^ e) (4 * v) ((4 * m + 2) * 2 ^ e) := by
  rcases Nat.lt_or_ge v (2 ^ (53 + e)) with hv | hv
  · rcases Nat.lt_or_ge v (2 ^ (52 + e)) with hv' | hv'
    · rcases lowReach_cases m with ⟨hm, hreach⟩ | ⟨hm, hreach⟩
      · obtain ⟨e, rfl⟩ := Nat.exists_eq_add_one_of_ne_zero (Nat.ne_of_gt he)
        have heven : m % 2 = 0 := by rw [hm]; rfl
        rw [nearest_eq_mul_iff_of_lt hm hv', hreach]
        rw [Nat.pow_add, ← hm] at hv'
        unfold Within
        rw [Nat.add_mul, Nat.mul_assoc]
        clear hm hv
        omega
      · have hnext : 2 ^ 52 * 2 ^ e + 2 ^ e ≤ m * 2 ^ e := by
          rw [← Nat.succ_mul]
          exact Nat.mul_le_mul_right _ (by omega)
        have hmost := nearest_le_two_pow hv'
        rw [Nat.pow_add] at hv' hmost
        clear hv
        refine iff_of_false (by omega) fun h => ?_
        have hbound := h.bounds.1
        rw [hreach, Nat.sub_mul, Nat.mul_assoc] at hbound
        omega
    · exact nearest_eq_mul_iff_of_le hv' hv
  · have hnext : m * 2 ^ e + 2 ^ e ≤ 2 ^ 53 * 2 ^ e := by
      rw [← Nat.succ_mul]
      exact Nat.mul_le_mul_right _ hhigh
    have hleast := two_pow_le_nearest hv
    rw [Nat.pow_add] at hv hleast
    have hpos := Nat.two_pow_pos e
    refine iff_of_false (by omega) fun h => ?_
    have hbound := h.bounds.2
    rw [Nat.add_mul, Nat.mul_assoc] at hbound
    omega

theorem nearest_eq_mul_of_lt {v : Nat} (hleast : 4 * (m * 2 ^ e) < 4 * v + lowReach m * 2 ^ e)
    (hmost : 4 * v < 4 * (m * 2 ^ e) + 2 * 2 ^ e)
    : nearest v = m * 2 ^ e := by
  have hunit : 2 ^ e ≤ m * 2 ^ e := Nat.le_mul_of_pos_left _ (by omega)
  apply (nearest_eq_mul_iff he hlow hhigh).2
  rw [Nat.sub_mul, Nat.add_mul, Nat.mul_assoc]
  apply Within.of_lt
  · rcases lowReach_cases m with ⟨_, hreach⟩ | ⟨_, hreach⟩
    all_goals
      rw [hreach] at hleast ⊢
      omega
  · exact hmost

theorem bounds_of_nearest_eq {v : Nat} (h : nearest v = m * 2 ^ e)
    : 4 * (m * 2 ^ e) ≤ 4 * v + 2 * 2 ^ e ∧ 4 * v ≤ 4 * (m * 2 ^ e) + 2 * 2 ^ e := by
  have ⟨hleast, hmost⟩ := ((nearest_eq_mul_iff he hlow hhigh).1 h).bounds
  rw [Nat.sub_mul, Nat.mul_assoc] at hleast
  rw [Nat.add_mul, Nat.mul_assoc] at hmost
  rcases lowReach_cases m with ⟨_, hreach⟩ | ⟨_, hreach⟩
  all_goals
    rw [hreach] at hleast
    omega

end Interval

theorem nearest_eq_of_between {a b c : Nat} (hab : a ≤ b) (hbc : b ≤ c) (h : nearest a = nearest c)
    : nearest b = nearest a := by
  have hleast := nearest_mono hab
  have hmost := nearest_mono hbc
  omega

theorem nearest_eq_self_of_lt {v : Nat} (h : nearest v < 2 ^ 53) : nearest v = v := by
  apply nearest_of_lt
  by_contra! hv
  exact Nat.not_le_of_lt h (two_pow_le_nearest hv)

theorem nearest_eq_iff_of_lt {v x : Nat} (h : x < 2 ^ 53) : nearest v = x ↔ v = x := by
  constructor
  · rintro rfl
    exact (nearest_eq_self_of_lt h).symm
  · rintro rfl
    exact nearest_of_lt h

theorem sub_le_lastPlace {a b : Nat} (hab : a < b) (h : nearest a = nearest b)
    : ∃ m e, 2 ^ 52 ≤ m ∧ m < 2 ^ 53 ∧ nearest a = m * 2 ^ e ∧ b - a ≤ 2 ^ e := by
  have hbig : 2 ^ 53 ≤ nearest a := by
    by_contra! hlt
    have ha := nearest_eq_self_of_lt hlt
    have hb := nearest_eq_self_of_lt (h ▸ hlt)
    omega
  obtain ⟨m, e, he, hlow, hhigh, hx⟩ := exists_mantissa (nearest_nearest a) hbig
  refine ⟨m, e, hlow, hhigh, hx, ?_⟩
  have ha := bounds_of_nearest_eq he hlow hhigh hx
  have hb := bounds_of_nearest_eq he hlow hhigh (h ▸ hx)
  omega

theorem exists_nearest_mul_eq {x t : Nat} (hx : nearest x = x) (ht : 0 < t) (h : 10 ^ 16 * t ≤ x)
    : ∃ c, nearest (c * t) = x := by
  have hbig : 2 ^ 53 ≤ x := by omega
  obtain ⟨m, e, he, hlow, hhigh, rfl⟩ := exists_mantissa hx hbig
  have hlt : m * 2 ^ e < 2 ^ 53 * 2 ^ e := Nat.mul_lt_mul_of_pos_right hhigh (Nat.two_pow_pos e)
  have hdiv : m * 2 ^ e / t * t + m * 2 ^ e % t = m * 2 ^ e := by
    rw [Nat.mul_comm]
    exact Nat.div_add_mod _ t
  have hmod := Nat.mod_lt (m * 2 ^ e) ht
  -- The multiple above is in the interval unless it is half a last place away; then the one below is.
  by_cases habove : 2 * (m * 2 ^ e / t * t + t) < 2 * (m * 2 ^ e) + 2 ^ e
  · refine ⟨m * 2 ^ e / t + 1, nearest_eq_mul_of_lt he hlow hhigh ?_ ?_⟩
    all_goals
      rw [Nat.add_mul]
      omega
  · refine ⟨m * 2 ^ e / t, nearest_eq_mul_of_lt he hlow hhigh ?_ ?_⟩
    · rcases lowReach_cases m with ⟨hm, hreach⟩ | ⟨_, hreach⟩
      · have hmin : m * 2 ^ e = 2 ^ 52 * 2 ^ e := congrArg (· * 2 ^ e) hm
        rw [hreach]
        omega
      · rw [hreach]
        omega
    · omega

end ModuleLink.Decimal
