import Mathlib.Algebra.Ring.Parity
import Mathlib.Data.List.DropRight
import Mathlib.Data.Nat.Dist
import Mathlib.Data.Nat.Find
import Mathlib.RingTheory.Multiplicity
import ModuleLink.Proofs.Decimal.Nearest

/-!
This module contains the shortest numerals of the whole numbers of double precision. The numeral of such a number is
that of a whole number which is rounded to it: none of the others ends in more zeros, and none with as many is as near.
-/

namespace ModuleLink.Decimal

/--
No other number that is rounded to the same number of double precision ends in more zeros, and one that ends in as many
is farther away from that number.
-/
def IsShortest (n : Nat) : Prop :=
  ∀ m, nearest m = nearest n → m ≠ n → ∀ j, 10 ^ j ∣ m →
    10 ^ j ∣ n ∧ (10 ^ (j + 1) ∣ n ∨ Nat.dist n (nearest n) < Nat.dist m (nearest n))

theorem isShortest_of_lt {n : Nat} (h : n < 2 ^ 53) : IsShortest n := by
  intro m hm hne
  rw [nearest_of_lt h, nearest_eq_iff_of_lt h] at hm
  exact absurd hm hne

theorem IsShortest.eq_of_nearest_eq {m n : Nat} (hm : IsShortest m) (hn : IsShortest n) (h : nearest m = nearest n)
    (hpos : 0 < m)
    : m = n := by
  by_contra hne
  have hfinite : FiniteMultiplicity 10 m := Nat.finiteMultiplicity_iff.2 ⟨by decide, hpos⟩
  have hmax : ¬10 ^ (multiplicity 10 m + 1) ∣ m := hfinite.not_pow_dvd_of_multiplicity_lt (Nat.lt_succ_self _)
  obtain ⟨hdvd, hmore | hnearer⟩ := hn m h hne _ (pow_multiplicity_dvd 10 m)
  · exact hmax (hm n h.symm (Ne.symm hne) _ hmore).1
  · obtain ⟨_, hmore | hnearer'⟩ := hm n h.symm (Ne.symm hne) _ hdvd
    · exact hmax hmore
    · rw [h] at hnearer'
      exact Nat.lt_asymm hnearer hnearer'

/--
The binary number is the whole number `x`, with the interval of the numbers that are rounded to `x`.
-/
structure Binary.Whole (b : Binary) (x : Nat) : Prop where
  pos : 0 < x
  fixed : nearest x = x
  value : b.mantissa * 2 ^ b.exponent.toNat = x * 2 ^ (-b.exponent).toNat
  interval (v : Nat)
    : nearest v = x ↔
        Within (b.mantissa % 2 = 0) ((4 * b.mantissa - if b.lowGap then 1 else 2) * 2 ^ b.exponent.toNat)
          (4 * v * 2 ^ (-b.exponent).toNat) ((4 * b.mantissa + 2) * 2 ^ b.exponent.toNat)

namespace Binary

def normal (mantissa : Nat) (exponent : Int) : Binary := ⟨mantissa, exponent, mantissa = 0x10000000000000⟩

def ofWhole (x : Nat) : Binary := normal (x * 0x10000000000000 / Nat.pow 2 x.log2) (x.log2 - 52)

example : ofWhole 9007199254740992 = ofBits 0x4340000000000000 := by decide

theorem reach_normal (m : Nat) (e : Int) : (if (normal m e).lowGap then 1 else 2) = lowReach m := by
  unfold normal lowReach
  simp only [decide_eq_true_eq]

theorem ofWhole_of_lt {x : Nat} (hpos : 0 < x) (h : x < 2 ^ 53)
    : ∃ k : Nat, ofWhole x = normal (x * 2 ^ k) (-(k : Int)) := by
  have hlog : x.log2 < 53 := (Nat.log2_lt (Nat.ne_of_gt hpos)).2 h
  have hmantissa : x * 0x10000000000000 / Nat.pow 2 x.log2 = x * 2 ^ (52 - x.log2) := by
    have hsplit : 0x10000000000000 = 2 ^ (52 - x.log2) * 2 ^ x.log2 := by
      rw [← Nat.pow_add, Nat.sub_add_cancel (by omega)]
    rw [hsplit, ← Nat.mul_assoc]
    exact Nat.mul_div_cancel _ (Nat.two_pow_pos _)
  have hexponent : (x.log2 : Int) - 52 = -((52 - x.log2 : Nat) : Int) := by omega
  refine ⟨52 - x.log2, ?_⟩
  unfold ofWhole
  rw [hmantissa, hexponent]

theorem ofWhole_mul {m e : Nat} (hlow : 2 ^ 52 ≤ m) (hhigh : m < 2 ^ 53) : ofWhole (m * 2 ^ e) = normal m e := by
  have hpos := Nat.two_pow_pos e
  have hlog : (m * 2 ^ e).log2 = 52 + e := by
    apply (Nat.log2_eq_iff (Nat.ne_of_gt (Nat.mul_pos (by omega) hpos))).2
    rw [Nat.add_right_comm, Nat.pow_add, Nat.pow_add]
    exact ⟨Nat.mul_le_mul_right _ hlow, Nat.mul_lt_mul_of_pos_right hhigh hpos⟩
  have hmantissa : m * 2 ^ e * 0x10000000000000 / Nat.pow 2 (52 + e) = m := by
    have hsplit : Nat.pow 2 (52 + e) = 2 ^ e * 0x10000000000000 := by
      change 2 ^ (52 + e) = _
      rw [Nat.pow_add, Nat.mul_comm]
    rw [hsplit, Nat.mul_assoc]
    exact Nat.mul_div_cancel _ (Nat.mul_pos hpos (by decide))
  have hexponent : ((52 + e : Nat) : Int) - 52 = e := by omega
  unfold ofWhole
  rw [hlog, hmantissa, hexponent]

theorem within_of_lt_iff {x v k m : Nat} (h : x * 2 ^ k = m)
    : Within (m % 2 = 0) (4 * m - lowReach m) (4 * v * 2 ^ k) (4 * m + 2) ↔ v = x := by
  have hpos := Nat.two_pow_pos k
  have hreach : lowReach m = 1 ∨ lowReach m = 2 := by
    rcases lowReach_cases m with ⟨_, hreach⟩ | ⟨_, hreach⟩
    · exact .inl hreach
    · exact .inr hreach
  rw [Nat.mul_assoc]
  constructor
  · intro hwithin
    have hbounds := hwithin.bounds
    by_contra hne
    rcases Nat.lt_or_gt_of_ne hne with hlt | hgt
    · have hle := Nat.mul_le_mul_right (2 ^ k) hlt
      rw [Nat.succ_mul] at hle
      omega
    · have hle := Nat.mul_le_mul_right (2 ^ k) hgt
      rw [Nat.succ_mul] at hle
      omega
  · rintro rfl
    unfold Within
    omega

theorem whole_ofWhole {x : Nat} (hpos : 0 < x) (hx : nearest x = x) : (ofWhole x).Whole x := by
  rcases Nat.lt_or_ge x (2 ^ 53) with hlt | hge
  · obtain ⟨k, hk⟩ := ofWhole_of_lt hpos hlt
    rw [hk]
    refine ⟨hpos, hx, ?value, ?interval⟩
    case value => simp [normal]
    case interval =>
      intro v
      rw [nearest_eq_iff_of_lt hlt, reach_normal, ← within_of_lt_iff (k := k) rfl]
      simp [normal]
  · obtain ⟨m, e, he, hlow, hhigh, rfl⟩ := exists_mantissa hx hge
    rw [ofWhole_mul hlow hhigh]
    refine ⟨hpos, hx, ?value, ?interval⟩
    case value => simp [normal]
    case interval =>
      intro v
      rw [nearest_eq_mul_iff he hlow hhigh, reach_normal]
      simp [normal]

def pick (inside : Nat → Bool) (c below above : Nat) : Option Nat :=
  if inside c && (decide (if below = above then c % 2 = 0 else below < above) || !inside (c + 1)) then some c
  else if inside (c + 1) then some (c + 1)
  else none

theorem pick_cases (inside : Nat → Bool) (c below above : Nat)
    : (pick inside c below above = some c ∧ inside c ∧ (inside (c + 1) → below ≤ above)) ∨
      (pick inside c below above = some (c + 1) ∧ inside (c + 1) ∧ (inside c → above ≤ below)) ∨
      (pick inside c below above = none ∧ ¬inside c ∧ ¬inside (c + 1)) := by
  unfold pick
  by_cases hnearer : if below = above then c % 2 = 0 else below < above
  · have hle : below ≤ above := by
      split at hnearer <;> omega
    cases hc : inside c
    all_goals
      cases hc' : inside (c + 1)
      all_goals simp [hnearer, hle]
  · have hge : above ≤ below := by
      split at hnearer <;> omega
    cases hc : inside c
    all_goals
      cases hc' : inside (c + 1)
      all_goals simp [hnearer, hge]

/--
The value lies in the interval of the numbers that are rounded to `b`, both multiplied by `up` or `down`.
-/
def inside (b : Binary) (up down c : Nat) : Bool :=
  if b.mantissa % 2 = 0 then
    decide ((4 * b.mantissa - (if b.lowGap then 1 else 2)) * up ≤ 4 * c * down)
      && decide (4 * c * down ≤ (4 * b.mantissa + 2) * up)
  else
    decide ((4 * b.mantissa - (if b.lowGap then 1 else 2)) * up < 4 * c * down)
      && decide (4 * c * down < (4 * b.mantissa + 2) * up)

theorem digits?_eq_pick {b : Binary} {p n t up down : Nat} (hn : n ≤ p) (ht : t = 10 ^ (p - n))
    (hup : up = 2 ^ b.exponent.toNat) (hdown : down = 2 ^ (-b.exponent).toNat * t)
    : b.digits? p n
        = pick (b.inside up down) (b.mantissa * up / down) (b.mantissa * up - b.mantissa * up / down * down)
            ((b.mantissa * up / down + 1) * down - b.mantissa * up) := by
  have hzero : ((n : Int) - p).toNat = 0 := by omega
  have hneg : (-((n : Int) - p)).toNat = p - n := by omega
  have hup' : up = Nat.pow 2 b.exponent.toNat * Nat.pow 10 ((n : Int) - p).toNat := by
    rw [hzero, hup]
    exact (Nat.mul_one _).symm
  have hdown' : down = Nat.pow 2 (-b.exponent).toNat * Nat.pow 10 (-((n : Int) - p)).toNat := by
    rw [hneg, hdown, ht]
    rfl
  rw [hup', hdown']
  rfl

end Binary

theorem div_mul_le_and_lt {x t : Nat} (ht : 0 < t) : x / t * t ≤ x ∧ x < (x / t + 1) * t :=
  ⟨Nat.div_mul_le_self x t, Nat.lt_mul_of_div_lt (Nat.lt_succ_self _) ht⟩

theorem nearest_neighbour {x t c : Nat} (hx : nearest x = x) (ht : 0 < t) (h : nearest (c * t) = x)
    : (c ≤ x / t ∧ nearest (x / t * t) = x ∧ x - x / t * t ≤ Nat.dist (c * t) x) ∨
      (x / t < c ∧ nearest ((x / t + 1) * t) = x ∧ (x / t + 1) * t - x ≤ Nat.dist (c * t) x) := by
  have ⟨hbelow, habove⟩ := div_mul_le_and_lt (x := x) ht
  rcases Nat.lt_or_ge (x / t) c with hc | hc
  · have hle : (x / t + 1) * t ≤ c * t := Nat.mul_le_mul_right t hc
    have hnearest := nearest_eq_of_between (Nat.le_of_lt habove) hle (hx.trans h.symm)
    refine .inr ⟨hc, hnearest.trans hx, ?_⟩
    unfold Nat.dist
    omega
  · have hle : c * t ≤ x / t * t := Nat.mul_le_mul_right t hc
    have hnearest := nearest_eq_of_between hle hbelow (h.trans hx.symm)
    refine .inl ⟨hc, hnearest.trans h, ?_⟩
    unfold Nat.dist
    omega

theorem mul_le_of_lt {a c t x : Nat} (hac : a < c) (ha : nearest (a * t) = x) (hc : nearest (c * t) = x)
    : 2 ^ 52 * t ≤ x := by
  rcases Nat.eq_zero_or_pos t with rfl | ht
  · exact Nat.zero_le x
  · obtain ⟨m, e, hm, _, hx, hgap⟩ := sub_le_lastPlace (Nat.mul_lt_mul_of_pos_right hac ht) (ha.trans hc.symm)
    have hstep : t ≤ c * t - a * t := by
      rw [← Nat.sub_mul]
      exact Nat.le_mul_of_pos_left t (Nat.sub_pos_of_lt hac)
    rw [← ha, hx]
    exact Nat.mul_le_mul hm (Nat.le_trans hstep hgap)

theorem add_ne_two_mul {c x j : Nat} (h : nearest (c * 10 ^ j) = x) (h' : nearest ((c + 1) * 10 ^ j) = x)
    : c * 10 ^ j + (c + 1) * 10 ^ j ≠ 2 * x := by
  intro heq
  have hpos : 0 < 10 ^ j := Nat.pow_pos (by decide)
  have hlt : c * 10 ^ j < (c + 1) * 10 ^ j := Nat.mul_lt_mul_of_pos_right (Nat.lt_succ_self c) hpos
  obtain ⟨m, e, _, _, hx, hgap⟩ := sub_le_lastPlace hlt (h.trans h'.symm)
  rw [Nat.add_mul, Nat.one_mul, Nat.add_sub_cancel_left] at hgap
  have hj : j ≤ e := by
    apply (Nat.pow_le_pow_iff_right Nat.one_lt_two).1
    exact Nat.le_trans (Nat.pow_le_pow_left (by decide) j) hgap
  obtain ⟨d, rfl⟩ := Nat.exists_eq_add_of_le hj
  -- The number has `j` factors of two at least, twice the middle has exactly `j`.
  have hcancel : (2 * c + 1) * 5 ^ j * 2 ^ j = 2 * (m * 2 ^ d) * 2 ^ j := by
    calc (2 * c + 1) * 5 ^ j * 2 ^ j
      _ = c * 10 ^ j + (c + 1) * 10 ^ j := by
        rw [show 10 = 5 * 2 from rfl, Nat.mul_pow]
        ring
      _ = 2 * (m * 2 ^ d) * 2 ^ j := by
        rw [heq, ← h, hx]
        ring
  have hodd : Odd ((2 * c + 1) * 5 ^ j) := (odd_two_mul_add_one c).mul (Odd.pow (by decide))
  rw [Nat.eq_of_mul_eq_mul_right (Nat.two_pow_pos j) hcancel] at hodd
  exact Nat.not_even_iff_odd.2 hodd (even_two_mul _)

theorem dist_ne_of_lt {a c x j : Nat} (hac : a < c) (ha : nearest (a * 10 ^ j) = x) (hc : nearest (c * 10 ^ j) = x)
    (hleast : ∀ d, nearest (d * 10 ^ j) = x → Nat.dist (a * 10 ^ j) x ≤ Nat.dist (d * 10 ^ j) x)
    : Nat.dist (a * 10 ^ j) x ≠ Nat.dist (c * 10 ^ j) x := by
  intro htie
  have hpos : 0 < 10 ^ j := Nat.pow_pos (by decide)
  have hsucc : (a + 1) * 10 ^ j = a * 10 ^ j + 10 ^ j := Nat.succ_mul _ _
  have hnext : (a + 1) * 10 ^ j ≤ c * 10 ^ j := Nat.mul_le_mul_right _ hac
  have hmem : nearest ((a + 1) * 10 ^ j) = x := by
    rw [← ha]
    exact nearest_eq_of_between (by omega) hnext (ha.trans hc.symm)
  have hmiddle := add_ne_two_mul ha hmem
  have hnear := hleast (a + 1) hmem
  unfold Nat.dist at htie hnear
  omega

namespace Binary.Whole

variable {b : Binary} {x : Nat} (hb : b.Whole x)

include hb

theorem inside_iff {up down c t : Nat} (hup : up = 2 ^ b.exponent.toNat) (hdown : down = 2 ^ (-b.exponent).toNat * t)
    : b.inside up down c ↔ nearest (c * t) = x := by
  have hscale : 4 * c * down = 4 * (c * t) * 2 ^ (-b.exponent).toNat := by
    rw [hdown]
    ring
  rw [hb.interval, ← hscale, ← hup]
  unfold inside Within
  split
  · next heven => simp [heven]
  · next hodd => simp [hodd]

theorem digits?_cases {p n : Nat} (hn : n ≤ p) {t : Nat} (ht : t = 10 ^ (p - n))
    : (b.digits? p n = some (x / t) ∧ nearest (x / t * t) = x ∧
        (nearest ((x / t + 1) * t) = x → x - x / t * t ≤ (x / t + 1) * t - x)) ∨
      (b.digits? p n = some (x / t + 1) ∧ nearest ((x / t + 1) * t) = x ∧
        (nearest (x / t * t) = x → (x / t + 1) * t - x ≤ x - x / t * t)) ∨
      (b.digits? p n = none ∧ nearest (x / t * t) ≠ x ∧ nearest ((x / t + 1) * t) ≠ x) := by
  obtain ⟨up, hup⟩ : ∃ up, up = 2 ^ b.exponent.toNat := ⟨_, rfl⟩
  obtain ⟨scale, hscale⟩ : ∃ scale, scale = 2 ^ (-b.exponent).toNat := ⟨_, rfl⟩
  have hpos : 0 < scale := hscale ▸ Nat.two_pow_pos _
  have hdown : scale * t = 2 ^ (-b.exponent).toNat * t := by rw [hscale]
  have hvalue : b.mantissa * up = scale * x := by rw [hup, hscale, hb.value, Nat.mul_comm]
  have hpick := digits?_eq_pick hn ht hup hdown
  rw [hvalue, Nat.mul_div_mul_left _ _ hpos, Nat.mul_left_comm, ← Nat.mul_sub, Nat.mul_left_comm,
    ← Nat.mul_sub] at hpick
  have hcases := pick_cases (b.inside up (scale * t)) (x / t) (scale * (x - x / t * t)) (scale * ((x / t + 1) * t - x))
  rw [← hpick] at hcases
  simp only [hb.inside_iff hup hdown, Nat.mul_le_mul_left_iff hpos] at hcases
  exact hcases

section Search

variable {p n t : Nat} (hn : n ≤ p) (ht : t = 10 ^ (p - n))

include hn ht

theorem nearest_ne_of_digits? (h : b.digits? p n = none) (c : Nat) : nearest (c * t) ≠ x := by
  have hpos : 0 < t := ht ▸ Nat.pow_pos (by decide)
  intro hc
  rcases hb.digits?_cases hn ht with ⟨hsome, _⟩ | ⟨hsome, _⟩ | ⟨_, hbelow, habove⟩
  · cases h.symm.trans hsome
  · cases h.symm.trans hsome
  · rcases nearest_neighbour hb.fixed hpos hc with ⟨_, hmem, _⟩ | ⟨_, hmem, _⟩
    · exact hbelow hmem
    · exact habove hmem

theorem dist_le_of_digits? {c : Nat} (h : b.digits? p n = some c)
    : nearest (c * t) = x ∧ ∀ c', nearest (c' * t) = x → Nat.dist (c * t) x ≤ Nat.dist (c' * t) x := by
  have hpos : 0 < t := ht ▸ Nat.pow_pos (by decide)
  have hbounds := div_mul_le_and_lt (x := x) hpos
  rcases hb.digits?_cases hn ht with ⟨hsome, hmem, hle⟩ | ⟨hsome, hmem, hle⟩ | ⟨hnone, _⟩
  · cases h.symm.trans hsome
    refine ⟨hmem, fun c' hc' => ?_⟩
    have hdist : Nat.dist (x / t * t) x = x - x / t * t := Nat.dist_eq_sub_of_le hbounds.1
    rcases nearest_neighbour hb.fixed hpos hc' with ⟨_, _, hfar⟩ | ⟨_, hother, hfar⟩
    · rwa [hdist]
    · rw [hdist]
      exact Nat.le_trans (hle hother) hfar
  · cases h.symm.trans hsome
    refine ⟨hmem, fun c' hc' => ?_⟩
    have hdist : Nat.dist ((x / t + 1) * t) x = (x / t + 1) * t - x :=
      Nat.dist_eq_sub_of_le_right (Nat.le_of_lt hbounds.2)
    rcases nearest_neighbour hb.fixed hpos hc' with ⟨_, hother, hfar⟩ | ⟨_, _, hfar⟩
    · rw [hdist]
      exact Nat.le_trans (hle hother) hfar
    · rwa [hdist]
  · cases h.symm.trans hnone

theorem dist_lt_of_digits? {c c' : Nat} (h : b.digits? p n = some c) (h' : nearest (c' * t) = x) (hne : c' ≠ c)
    : Nat.dist (c * t) x < Nat.dist (c' * t) x := by
  have ⟨hc, hleast⟩ := hb.dist_le_of_digits? hn ht h
  apply Nat.lt_of_le_of_ne (hleast c' h')
  intro htie
  rw [ht] at *
  rcases Nat.lt_or_gt_of_ne hne with hlt | hgt
  · refine dist_ne_of_lt hlt h' hc (fun d hd => ?_) htie.symm
    rw [← htie]
    exact hleast d hd
  · exact dist_ne_of_lt hgt hc h' hleast htie

end Search

section First

variable {p n c : Nat} (hx : x < 10 ^ p) (hn : n < p) (h : b.digits? p (n + 1) = some c)
  (hfirst : ∀ n' < n, b.digits? p (n' + 1) = none)

include hx hn h hfirst

theorem le_of_pow_dvd {m i : Nat} (hm : nearest m = x) (hne : m ≠ c * 10 ^ (p - (n + 1))) (hi : 10 ^ i ∣ m)
    : i ≤ p - (n + 1) := by
  have ⟨hc, _⟩ := hb.dist_le_of_digits? hn rfl h
  by_contra! hlt
  have hdvd : 10 ^ (p - n) ∣ m := Nat.dvd_trans (Nat.pow_dvd_pow 10 (by omega)) hi
  obtain ⟨d, rfl⟩ := hdvd
  rw [Nat.mul_comm _ d] at hm hne
  cases n with
  | zero =>
    -- A number has only one decimal of one digit.
    have hten : 10 ^ (p - 0) = 10 * 10 ^ (p - (0 + 1)) := by
      rw [← Nat.pow_succ', Nat.succ_eq_add_one, Nat.sub_add_eq, Nat.sub_add_cancel (by omega)]
    rw [hten, ← Nat.mul_assoc] at hm hne
    have hsmall : 2 ^ 52 * 10 ^ (p - (0 + 1)) ≤ x := by
      rcases Nat.lt_or_gt_of_ne fun heq => hne (congrArg (· * _) heq) with hlt | hgt
      · exact mul_le_of_lt hlt hm hc
      · exact mul_le_of_lt hgt hc hm
    rw [Nat.sub_zero] at hten
    omega
  | succ n => exact hb.nearest_ne_of_digits? (Nat.le_of_lt hn) rfl (hfirst n (Nat.lt_succ_self n)) d hm

theorem isShortest_of_digits? : IsShortest (c * 10 ^ (p - (n + 1))) := by
  have ⟨hc, _⟩ := hb.dist_le_of_digits? hn rfl h
  intro m hm hne i hi
  rw [hc] at hm ⊢
  have hle := hb.le_of_pow_dvd hx hn h hfirst hm hne hi
  refine ⟨Nat.dvd_trans (Nat.pow_dvd_pow 10 hle) (Nat.dvd_mul_left _ _), ?_⟩
  rcases Nat.lt_or_eq_of_le hle with hlt | rfl
  · exact .inl (Nat.dvd_trans (Nat.pow_dvd_pow 10 hlt) (Nat.dvd_mul_left _ _))
  · obtain ⟨d, rfl⟩ := hi
    rw [Nat.mul_comm _ d] at hm hne ⊢
    refine .inr (hb.dist_lt_of_digits? hn rfl h hm ?_)
    rintro rfl
    exact hne rfl

end First

theorem exists_digits? {p : Nat} (hp : 0 < p) (hx : 10 ^ (p - 1) ≤ x)
    : ∃ n c, n < 17 ∧ n < p ∧ b.digits? p (n + 1) = some c ∧ ∀ n' < n, b.digits? p (n' + 1) = none := by
  have hsome : ∃ n, n < 17 ∧ n < p ∧ b.digits? p (n + 1) ≠ none := by
    rcases Nat.lt_or_ge 17 p with hlong | hshort
    · refine ⟨16, by decide, by omega, fun hnone => ?_⟩
      have hfine : 10 ^ 16 * 10 ^ (p - (16 + 1)) ≤ x := by
        rwa [← Nat.pow_add, show 16 + (p - (16 + 1)) = p - 1 by omega]
      obtain ⟨c, hc⟩ := exists_nearest_mul_eq hb.fixed (Nat.pow_pos (by decide)) hfine
      exact hb.nearest_ne_of_digits? (by omega) rfl hnone c hc
    · refine ⟨p - 1, by omega, by omega, fun hnone => ?_⟩
      apply hb.nearest_ne_of_digits? (by omega) rfl hnone x
      rw [show p - (p - 1 + 1) = 0 by omega, Nat.pow_zero, Nat.mul_one]
      exact hb.fixed
  have ⟨hlt, hlt', hne⟩ := Nat.find_spec hsome
  obtain ⟨c, hc⟩ := Option.ne_none_iff_exists'.1 hne
  refine ⟨Nat.find hsome, c, hlt, hlt', hc, fun n' hn' => ?_⟩
  by_contra hne'
  exact Nat.find_min hsome hn' ⟨Nat.lt_trans hn' hlt, Nat.lt_trans hn' hlt', hne'⟩

end Binary.Whole

theorem length_digitsOf_le_iff {v k : Nat} (hk : 0 < k) : (digitsOf v).length ≤ k ↔ v < 10 ^ k := by
  unfold digitsOf
  rw [List.length_map]
  exact Nat.length_toDigits_le_iff (by decide) hk

theorem length_digitsOf_pos {v : Nat} : 0 < (digitsOf v).length := by
  unfold digitsOf
  rw [List.length_map]
  exact Nat.length_toDigits_pos

theorem pow_length_digitsOf_le {v : Nat} (hv : 0 < v) : 10 ^ ((digitsOf v).length - 1) ≤ v := by
  have hpos := length_digitsOf_pos (v := v)
  by_contra! hlt
  rcases Nat.eq_zero_or_pos ((digitsOf v).length - 1) with hzero | hmore
  · rw [hzero] at hlt
    omega
  · have hle := (length_digitsOf_le_iff hmore).2 hlt
    omega

def Numeral.ofWhole (v : Nat) : Numeral := ⟨(digitsOf v).rdropWhile (· == 0), (digitsOf v).length⟩

theorem digitsOf_mul_pow {c : Nat} (hc : 0 < c) (j : Nat)
    : digitsOf (c * 10 ^ j) = digitsOf c ++ List.replicate j 0 := by
  induction j with
  | zero => simp
  | succ j ih =>
    have hpos : 0 < c * 10 ^ j := Nat.mul_pos hc (Nat.pow_pos (by decide))
    have hdigits := Nat.toDigits_append_toDigits (b := 10) (d := 0) (by decide) hpos (by decide)
    have hmul : c * 10 ^ (j + 1) = 10 * (c * 10 ^ j) + 0 := by ring
    rw [List.replicate_succ', ← List.append_assoc, ← ih]
    unfold digitsOf
    rw [hmul, ← hdigits, List.map_append]
    rfl

theorem rdropWhile_append_replicate (ds : List Nat) (j : Nat)
    : (ds ++ List.replicate j 0).rdropWhile (· == 0) = ds.rdropWhile (· == 0) := by
  induction j with
  | zero => rw [List.replicate_zero, List.append_nil]
  | succ j ih =>
    rw [List.replicate_succ', ← List.append_assoc, List.rdropWhile_concat_pos, ih]
    rfl

theorem Numeral.ofWhole_mul_pow {c : Nat} (hc : 0 < c) (j : Nat)
    : ofWhole (c * 10 ^ j) = ⟨(digitsOf c).rdropWhile (· == 0), ((digitsOf c).length + j : Nat)⟩ := by
  unfold ofWhole
  rw [digitsOf_mul_pow hc, rdropWhile_append_replicate, List.length_append, List.length_replicate]

theorem pointFrom_eq {num den p : Nat} (hone : den ≤ num) (hlt : num < den * 10 ^ p)
    (hge : ∀ q < p, den * 10 ^ q ≤ num) (n : Nat) (start : Int) (hstart : start ≤ p) (hend : p ≤ start + n)
    : pointFrom num den start n = p := by
  induction n generalizing start with
  | zero =>
    unfold pointFrom
    omega
  | succ n ih =>
    unfold pointFrom
    rcases Int.lt_or_eq_of_le hstart with hbelow | rfl
    · rw [if_neg]
      · exact ih (start + 1) (by omega) (by omega)
      · split
        · exact Nat.not_lt_of_le (hge start.toNat (by omega))
        · have hmul : num ≤ num * Nat.pow 10 (-start).toNat := Nat.le_mul_of_pos_right _ (Nat.pow_pos (by decide))
          omega
    · rw [if_pos]
      rw [if_pos (Int.natCast_nonneg p)]
      exact hlt

theorem findSome?_range_eq {f : Nat → Option (Nat × Nat)} {n k : Nat} {r : Nat × Nat} (hn : n < k) (h : f n = some r)
    (hfirst : ∀ m < n, f m = none)
    : (List.range k).findSome? f = some r := by
  induction k with
  | zero => omega
  | succ k ih =>
    rw [List.range_succ, List.findSome?_append]
    rcases Nat.lt_or_eq_of_le (Nat.le_of_lt_succ hn) with hlt | rfl
    · rw [ih hlt, Option.some_or]
    · have hnone : (List.range n).findSome? f = none :=
        List.findSome?_eq_none_iff.2 fun m hm => hfirst m (List.mem_range.1 hm)
      rw [hnone, Option.none_or, List.findSome?_singleton, h]

namespace Binary.Whole

variable {b : Binary} {x : Nat} (hb : b.Whole x) (hx : x < 10 ^ 370)

include hb hx

theorem pointFrom_eq
    : pointFrom (b.mantissa * Nat.pow 2 b.exponent.toNat) (Nat.pow 2 (-b.exponent).toNat) (-330) 700
        = (digitsOf x).length := by
  have hvalue : b.mantissa * Nat.pow 2 b.exponent.toNat = x * Nat.pow 2 (-b.exponent).toNat := hb.value
  have hden : 0 < Nat.pow 2 (-b.exponent).toNat := Nat.two_pow_pos _
  have hplaces := (length_digitsOf_le_iff (by decide)).2 hx
  rw [hvalue]
  refine Decimal.pointFrom_eq (Nat.le_mul_of_pos_left _ hb.pos) ?_ (fun q hq => ?_) 700 (-330) (by omega) (by omega)
  · rw [Nat.mul_comm]
    exact Nat.mul_lt_mul_of_pos_left ((length_digitsOf_le_iff length_digitsOf_pos).1 (Nat.le_refl _)) hden
  · have hpow : 10 ^ q ≤ 10 ^ ((digitsOf x).length - 1) := Nat.pow_le_pow_right (by decide) (by omega)
    rw [Nat.mul_comm]
    exact Nat.mul_le_mul_right _ (Nat.le_trans hpow (pow_length_digitsOf_le hb.pos))

theorem shortest_eq : ∃ v, b.shortest = Numeral.ofWhole v ∧ nearest v = x ∧ IsShortest v := by
  have hplaces := length_digitsOf_pos (v := x)
  have hhigh := (length_digitsOf_le_iff hplaces).1 (Nat.le_refl _)
  obtain ⟨n, c, hn, hnp, hc, hfirst⟩ := hb.exists_digits? hplaces (pow_length_digitsOf_le hb.pos)
  have ⟨hnearest, _⟩ := hb.dist_le_of_digits? hnp rfl hc
  refine ⟨c * 10 ^ ((digitsOf x).length - (n + 1)), ?_, hnearest, hb.isShortest_of_digits? hhigh hnp hc hfirst⟩
  have hpos : 0 < c := Nat.pos_of_mul_pos_right (nearest_pos_iff.1 (hnearest ▸ hb.pos))
  have hfound
      : ((List.range 17).findSome? fun n => (b.digits? (digitsOf x).length (n + 1)).map fun c => (n + 1, c))
          = some (n + 1, c) := by
    apply findSome?_range_eq hn
    · rw [hc, Option.map_some]
    · intro m hm
      rw [hfirst m hm, Option.map_none]
  unfold shortest
  rw [Numeral.ofWhole_mul_pow hpos]
  simp only [hb.pointFrom_eq hx, hfound]
  congr 1
  omega

end Binary.Whole

end ModuleLink.Decimal
