import Lexemes.Number.Decimal
import Mathlib.Tactic.Linarith
import Mathlib.Tactic.Ring

namespace Lexemes.Binary64

theorem binade_pos : 0 < binade := by decide

/-- The size of a double by its shift and the 53 digits behind which it is shifted. Both descriptions of
the first double of a binade give the same size. -/
theorem units_shift {shift q : Nat} (hlow : 0 < shift → binade ≤ q) (hhigh : q ≤ 2 * binade) :
    units (shift * binade + q) = q * 2 ^ shift := by
  by_cases hsmall : shift * binade + q < binade
  · -- Such a rank is in the first binade, where nothing is shifted.
    obtain rfl : shift = 0 := by
      by_contra hne
      have hbinade := hlow (Nat.pos_of_ne_zero hne)
      have hless := Nat.zero_le (shift * binade)
      omega
    rw [units, if_pos hsmall, Nat.zero_mul, Nat.zero_add, Nat.pow_zero, Nat.mul_one]
  have hbinade : binade ≤ q := by
    obtain rfl | hpos := Nat.eq_zero_or_pos shift
    · omega
    · exact hlow hpos
  rw [units, if_neg hsmall, Nat.shiftLeft_eq]
  obtain hq | hq : q < 2 * binade ∨ q = 2 * binade := by omega
  · have hdiv : (shift * binade + q) / binade = shift + 1 := by
      rw [Nat.mul_comm, Nat.mul_add_div binade_pos, Nat.div_eq_of_lt_le (k := 1) (by omega) (by omega)]
    have hmod : (shift * binade + q) % binade = q - binade := by
      rw [Nat.mul_comm, Nat.mul_add_mod, Nat.mod_eq_sub_mod hbinade, Nat.mod_eq_of_lt (by omega)]
    rw [hdiv, hmod, Nat.add_sub_cancel' hbinade, Nat.add_sub_cancel]
  · -- The rank is the first one of the next binade.
    have hdiv : (shift * binade + q) / binade = shift + 2 := by
      rw [hq, ← Nat.add_mul, Nat.mul_div_cancel _ binade_pos]
    have hmod : (shift * binade + q) % binade = 0 := by
      rw [hq, ← Nat.add_mul, Nat.mul_mod_left]
    have hexponent : shift + 2 - 1 = shift + 1 := by omega
    rw [hdiv, hmod, hexponent, hq, Nat.pow_succ]
    ring

theorem units_of_le {rank : Nat} (h : rank ≤ 2 * binade) : units rank = rank := by
  have hzero : 0 < 0 → binade ≤ rank := fun hpos => absurd hpos (Nat.lt_irrefl 0)
  have hunits := units_shift hzero h
  rw [Nat.zero_mul, Nat.zero_add, Nat.pow_zero, Nat.mul_one] at hunits
  exact hunits

/-- A rank beyond the first binade, by its shift and the 53 digits of its size. -/
theorem exists_shift {rank : Nat} (h : binade ≤ rank) :
    ∃ shift q, rank = shift * binade + q ∧ binade ≤ q ∧ q < 2 * binade := by
  have hmod := Nat.mod_lt rank binade_pos
  have hdiv := Nat.div_add_mod' rank binade
  have hpos : 1 ≤ rank / binade := Nat.div_pos h binade_pos
  have hsplit : (rank / binade - 1) * binade + binade = rank / binade * binade := by
    rw [← Nat.succ_mul, Nat.succ_eq_add_one, Nat.sub_add_cancel hpos]
  exact ⟨rank / binade - 1, binade + rank % binade, by omega, by omega, by omega⟩

/-- The step from a double to the next one, which is small beside them: by a factor of `2 ^ 53` at most
and, from the second binade on, of `2 ^ 52` at least. -/
theorem exists_step (rank : Nat) :
    ∃ step, 0 < step ∧ units (rank + 1) = units rank + step ∧ units (rank + 1) ≤ 2 * binade * step ∧
      (binade ≤ rank → binade * step ≤ units rank) := by
  by_cases hsmall : rank < binade
  · have hhere : units rank = rank := units_of_le (by omega)
    have hnext : units (rank + 1) = rank + 1 := units_of_le (by omega)
    exact ⟨1, Nat.one_pos, by omega, by omega, by omega⟩
  · obtain ⟨shift, q, rfl, hlow, hhigh⟩ := exists_shift (Nat.le_of_not_lt hsmall)
    have hhere : units (shift * binade + q) = q * 2 ^ shift :=
      units_shift (fun _ => hlow) (Nat.le_of_lt hhigh)
    have hnext : units (shift * binade + (q + 1)) = (q + 1) * 2 ^ shift :=
      units_shift (fun _ => Nat.le_succ_of_le hlow) hhigh
    rw [← Nat.add_assoc] at hnext
    refine ⟨2 ^ shift, Nat.two_pow_pos shift, ?_, ?_, ?_⟩
    · rw [hhere, hnext]
      ring
    · rw [hnext]
      exact Nat.mul_le_mul_right _ hhigh
    · intro _
      rw [hhere]
      exact Nat.mul_le_mul_right _ hlow

theorem units_lt_succ (rank : Nat) : units rank < units (rank + 1) := by
  obtain ⟨step, hpos, hstep, -, -⟩ := exists_step rank
  omega

theorem units_strictMono : StrictMono units := strictMono_nat_of_lt_succ units_lt_succ

theorem units_zero : units 0 = 0 := by decide

/-- The whole number that a quotient is rounded to is at most a half away from it. -/
theorem roundQuotient_bounds (num : Nat) {den : Nat} (hden : 0 < den) :
    2 * num ≤ (2 * roundQuotient num den + 1) * den ∧
      2 * roundQuotient num den * den ≤ 2 * num + den := by
  have hdiv := Nat.div_add_mod' num den
  have hmod := Nat.mod_lt num hden
  rw [roundQuotient]
  split
  next h =>
    have hupper : (2 * (num / den) + 1) * den = 2 * (num / den * den) + den := by ring
    have hlower : 2 * (num / den) * den = 2 * (num / den * den) := by ring
    omega
  next h =>
    have hupper : (2 * (num / den + 1) + 1) * den = 2 * (num / den * den) + 3 * den := by ring
    have hlower : 2 * (num / den + 1) * den = 2 * (num / den * den) + 2 * den := by ring
    omega

/-- Rounding takes one of the two whole numbers around a quotient. -/
theorem div_le_roundQuotient (num den : Nat) :
    num / den ≤ roundQuotient num den ∧ roundQuotient num den ≤ num / den + 1 := by
  rw [roundQuotient]
  split <;> omega

theorem roundQuotient_mul_right (num den : Nat) {m : Nat} (hm : 0 < m) :
    roundQuotient (num * m) (den * m) = roundQuotient num den := by
  have hdiv : num * m / (den * m) = num / den := Nat.mul_div_mul_right num den hm
  have hmod : num * m % (den * m) = num % den * m := Nat.mul_mod_mul_right m num den
  have hlt : 2 * (num % den * m) < den * m ↔ 2 * (num % den) < den := by
    rw [← Nat.mul_assoc]
    exact Nat.mul_lt_mul_right hm
  have heq : 2 * (num % den * m) = den * m ↔ 2 * (num % den) = den := by
    rw [← Nat.mul_assoc]
    exact Nat.mul_left_inj (Nat.pos_iff_ne_zero.mp hm)
  simp only [roundQuotient, hdiv, hmod, hlt, heq]

/-- The shift with which a quotient is measured when it is rounded. -/
def roundingShift (num den : Nat) : Nat := (num <<< 1074 / den).log2 - 52

/-- The rank of the double nearest to a quotient if the doubles had no end. -/
def unboundedRank (num den : Nat) : Nat :=
  roundingShift num den * binade + roundQuotient (num <<< 1074) (den <<< roundingShift num den)

theorem nearestRank_eq_min (num den : Nat) :
    nearestRank num den = min infinityRank (unboundedRank num den) := rfl

/-- Only the quotient counts, not the terms that it is given in. -/
theorem nearestRank_mul_right (num den : Nat) {m : Nat} (hm : 0 < m) :
    nearestRank (num * m) (den * m) = nearestRank num den := by
  have hnum : (num * m) <<< 1074 = num <<< 1074 * m := by
    rw [Nat.shiftLeft_eq, Nat.shiftLeft_eq, Nat.mul_right_comm]
  have hshift : roundingShift (num * m) (den * m) = roundingShift num den := by
    rw [roundingShift, hnum, Nat.mul_div_mul_right _ _ hm, roundingShift]
  have hden : (den * m) <<< roundingShift num den = den <<< roundingShift num den * m := by
    rw [Nat.shiftLeft_eq, Nat.shiftLeft_eq, Nat.mul_right_comm]
  rw [nearestRank_eq_min, nearestRank_eq_min, unboundedRank, unboundedRank, hshift, hnum, hden,
    roundQuotient_mul_right _ _ hm]

/-- No double is nearer to a quotient than the one of a rank: the quotient lies between its midpoints with
the doubles before and after it. -/
structure Nearest (num den rank : Nat) : Prop where
  above : 2 * num <<< 1074 ≤ (units rank + units (rank + 1)) * den
  below : 0 < rank → (units (rank - 1) + units rank) * den ≤ 2 * num <<< 1074

/-- A shifted quotient has at most 53 digits before the point, and exactly 53 if it is shifted at all. -/
theorem roundingShift_bounds (num den : Nat) :
    num <<< 1074 / (den <<< roundingShift num den) < 2 * binade ∧
      (0 < roundingShift num den → binade ≤ num <<< 1074 / (den <<< roundingShift num den)) := by
  obtain ⟨v, hv⟩ : ∃ v, v = num <<< 1074 / den := ⟨_, rfl⟩
  have hquotient : num <<< 1074 / (den <<< roundingShift num den) = v / 2 ^ roundingShift num den := by
    rw [Nat.shiftLeft_eq den, ← Nat.div_div_eq_div_mul, hv]
  have hshift : roundingShift num den = v.log2 - 52 := by rw [roundingShift, hv]
  have hbinade : binade = 2 ^ 52 := by decide
  have htwo : 2 * binade = 2 ^ 53 := by decide
  rw [hquotient, hshift]
  constructor
  · have hlog : v < 2 ^ (v.log2 + 1) := Nat.lt_log2_self
    have hpow : 2 ^ (v.log2 + 1) ≤ 2 ^ (53 + (v.log2 - 52)) :=
      Nat.pow_le_pow_right (by decide) (by omega)
    rw [htwo, Nat.div_lt_iff_lt_mul (Nat.two_pow_pos _), ← Nat.pow_add]
    exact Nat.lt_of_lt_of_le hlog hpow
  · intro hpos
    have hne : v ≠ 0 := by
      rintro rfl
      simp at hpos
    have hlog : 2 ^ v.log2 ≤ v := Nat.log2_self_le hne
    have hexponent : 52 + (v.log2 - 52) = v.log2 := by omega
    rw [hbinade, Nat.le_div_iff_mul_le (Nat.two_pow_pos _), ← Nat.pow_add, hexponent]
    exact hlog

/-- The shift of a quotient and the whole number that it is rounded to. The latter is at most a half away
from the shifted quotient, and not above it where a binade begins. -/
theorem exists_rounded (num : Nat) {den : Nat} (hden : 0 < den) :
    ∃ shift q, unboundedRank num den = shift * binade + q ∧ (0 < shift → binade ≤ q) ∧
      q ≤ 2 * binade ∧ 2 * num <<< 1074 ≤ (2 * q + 1) * (2 ^ shift * den) ∧
      2 * q * (2 ^ shift * den) ≤ 2 * num <<< 1074 + 2 ^ shift * den ∧
      (0 < shift → q = binade → q * (2 ^ shift * den) ≤ num <<< 1074) := by
  refine ⟨_, _, rfl, ?_⟩
  obtain ⟨hfew, hmany⟩ := roundingShift_bounds num den
  generalize roundingShift num den = shift at hfew hmany ⊢
  have hden' : den <<< shift = 2 ^ shift * den := by rw [Nat.shiftLeft_eq, Nat.mul_comm]
  rw [hden'] at hfew hmany ⊢
  have hpos : 0 < 2 ^ shift * den := Nat.mul_pos (Nat.two_pow_pos shift) hden
  obtain ⟨habove, hbelow⟩ := roundQuotient_bounds (num <<< 1074) hpos
  obtain ⟨hfloor, hceil⟩ := div_le_roundQuotient (num <<< 1074) (2 ^ shift * den)
  refine ⟨fun h => Nat.le_trans (hmany h) hfloor, by omega, habove, hbelow, ?_⟩
  intro hshift hfirst
  have hexact : roundQuotient (num <<< 1074) (2 ^ shift * den) ≤ num <<< 1074 / (2 ^ shift * den) := by
    have hbinade := hmany hshift
    omega
  exact Nat.le_trans (Nat.mul_le_mul_right _ hexact) (Nat.div_mul_le_self _ _)

/-- The double after the one of a rank `shift * binade + q`: its step may be twice as large. -/
theorem le_units_shift_succ {shift q : Nat} (hlow : 0 < shift → binade ≤ q) (hhigh : q ≤ 2 * binade) :
    (q + 1) * 2 ^ shift ≤ units (shift * binade + q + 1) := by
  obtain hq | rfl : q < 2 * binade ∨ q = 2 * binade := by omega
  · rw [Nat.add_assoc, units_shift (fun h => Nat.le_succ_of_le (hlow h)) hq]
  · have hrank : shift * binade + 2 * binade + 1 = (shift + 1) * binade + (binade + 1) := by ring
    have hone : binade + 1 ≤ 2 * binade := by decide
    have hpos := Nat.two_pow_pos shift
    rw [hrank, units_shift (fun _ => Nat.le_succ binade) hone, Nat.pow_succ]
    nlinarith

/-- The double before the one of a rank `shift * binade + q`, unless a binade begins there. -/
theorem units_shift_pred {shift q : Nat} (hq : 0 < q) (hlow : 0 < shift → binade < q)
    (hhigh : q ≤ 2 * binade) : units (shift * binade + q - 1) = (q - 1) * 2 ^ shift := by
  rw [Nat.add_sub_assoc hq]
  exact units_shift (fun h => Nat.le_sub_one_of_lt (hlow h)) (Nat.le_trans (Nat.sub_le q 1) hhigh)

/-- The rank that is computed is that of a nearest double. -/
theorem nearest_unboundedRank (num : Nat) {den : Nat} (hden : 0 < den) :
    Nearest num den (unboundedRank num den) := by
  obtain ⟨shift, q, hrank, hlow, hhigh, habove, hbelow, hfirst⟩ := exists_rounded num hden
  have hunits := units_shift hlow hhigh
  have hnext := le_units_shift_succ hlow hhigh
  rw [hrank]
  constructor
  · calc 2 * num <<< 1074 ≤ (2 * q + 1) * (2 ^ shift * den) := habove
      _ = (q * 2 ^ shift + (q + 1) * 2 ^ shift) * den := by ring
      _ ≤ (units (shift * binade + q) + units (shift * binade + q + 1)) * den := by
        rw [hunits]
        exact Nat.mul_le_mul_right den (Nat.add_le_add_left hnext _)
  · intro hpos
    by_cases hbegins : 0 < shift ∧ q = binade
    · -- The double before is nearer than a whole step, but nothing has been rounded up here.
      have hprev := units_strictMono.monotone (Nat.sub_le (shift * binade + q) 1)
      calc (units (shift * binade + q - 1) + units (shift * binade + q)) * den
          ≤ (units (shift * binade + q) + units (shift * binade + q)) * den :=
            Nat.mul_le_mul_right den (Nat.add_le_add_right hprev _)
        _ = 2 * (q * (2 ^ shift * den)) := by
            rw [hunits]
            ring
        _ ≤ 2 * num <<< 1074 := Nat.mul_le_mul_left 2 (hfirst hbegins.1 hbegins.2)
    · have hinner : 0 < shift → binade < q := by
        intro hshift
        have hbinade := hlow hshift
        omega
      have hq : 0 < q := by
        obtain rfl | hshift := Nat.eq_zero_or_pos shift
        · omega
        · exact Nat.zero_lt_of_lt (hinner hshift)
      rw [units_shift_pred hq hinner hhigh, hunits]
      obtain ⟨p, rfl⟩ : ∃ p, q = p + 1 := ⟨q - 1, by omega⟩
      have hsum : ((p + 1 - 1) * 2 ^ shift + (p + 1) * 2 ^ shift) * den + 2 ^ shift * den =
          2 * (p + 1) * (2 ^ shift * den) := by
        rw [Nat.add_sub_cancel]
        ring
      omega

/-- A finite result lies as near as any double. -/
theorem nearest_nearestRank {num den : Nat} (hden : 0 < den)
    (hfinite : nearestRank num den < infinityRank) : Nearest num den (nearestRank num den) := by
  have hrank : nearestRank num den = unboundedRank num den := by
    rw [nearestRank_eq_min] at hfinite ⊢
    omega
  rw [hrank]
  exact nearest_unboundedRank num hden

/-- Between the midpoints of a double with its neighbours there is nothing that is rounded to another
one. -/
theorem nearestRank_of_between {num den rank : Nat} (hden : 0 < den) (hrank : rank ≤ infinityRank)
    (habove : 2 * num <<< 1074 < (units rank + units (rank + 1)) * den)
    (hbelow : 0 < rank → (units (rank - 1) + units rank) * den < 2 * num <<< 1074) :
    nearestRank num den = rank := by
  have hnearest := nearest_unboundedRank num hden
  obtain ⟨other, hother⟩ : ∃ other, other = unboundedRank num den := ⟨_, rfl⟩
  rw [← hother] at hnearest
  have hsame : other = rank := by
    rcases Nat.lt_trichotomy other rank with hlt | heq | hgt
    · -- A smaller double has its upper midpoint below the lower one of the rank.
      have hmono : units other + units (other + 1) ≤ units (rank - 1) + units rank :=
        Nat.add_le_add (units_strictMono.monotone (by omega)) (units_strictMono.monotone hlt)
      have hmul := Nat.mul_le_mul_right den hmono
      have habove := hnearest.above
      have hbelow := hbelow (by omega)
      omega
    · exact heq
    · have hmono : units rank + units (rank + 1) ≤ units (other - 1) + units other :=
        Nat.add_le_add (units_strictMono.monotone (by omega)) (units_strictMono.monotone hgt)
      have hmul := Nat.mul_le_mul_right den hmono
      have hbelow := hnearest.below (by omega)
      omega
  rw [nearestRank_eq_min, ← hother, hsame]
  exact Nat.min_eq_right hrank

/-- A quotient that is the size of a double is rounded to that double. -/
theorem nearestRank_of_units {num den rank : Nat} (hden : 0 < den) (hrank : rank ≤ infinityRank)
    (h : num <<< 1074 = units rank * den) : nearestRank num den = rank := by
  have htwice : 2 * num <<< 1074 = (units rank + units rank) * den := by
    rw [h]
    ring
  apply nearestRank_of_between hden hrank
  · rw [htwice]
    exact Nat.mul_lt_mul_of_pos_right (Nat.add_lt_add_left (units_lt_succ rank) _) hden
  · intro hpos
    have hless : units (rank - 1) < units rank := units_strictMono (by omega)
    rw [htwice]
    exact Nat.mul_lt_mul_of_pos_right (Nat.add_lt_add_right hless _) hden

theorem nearestRank_zero {den : Nat} (hden : 0 < den) : nearestRank 0 den = 0 := by
  apply nearestRank_of_units hden (Nat.zero_le _)
  rw [units_zero, Nat.zero_mul, Nat.zero_shiftLeft]

/-- Every number of at most 53 binary digits is, with any number of zeros behind them, the size of a
double. -/
theorem exists_units {m : Nat} (hm : m < 2 * binade) (zeros : Nat) :
    ∃ rank, units rank = m * 2 ^ zeros := by
  induction zeros generalizing m with
  | zero => exact ⟨m, by rw [units_of_le (Nat.le_of_lt hm), Nat.pow_zero, Nat.mul_one]⟩
  | succ zeros ih =>
    by_cases hlarge : binade ≤ m
    · exact ⟨(zeros + 1) * binade + m, units_shift (fun _ => hlarge) (Nat.le_of_lt hm)⟩
    · -- A shorter number takes one of the zeros among its digits.
      obtain ⟨rank, hrank⟩ := @ih (2 * m) (by omega)
      refine ⟨rank, ?_⟩
      rw [hrank, Nat.pow_succ]
      ring

/-- The whole numbers that are doubles. -/
def IsExact (n : Nat) : Prop := ∃ m zeros, m < 2 * binade ∧ zeros ≤ 64 ∧ n = m * 2 ^ zeros

/-- A double whose size has an exponent below that of infinity is finite. The exponent of infinity is named
in the proof, so that no power of this size is ever computed. -/
theorem lt_infinityRank {m zeros rank : Nat} (hm : m < 2 * binade) (hzeros : zeros < 2046)
    (hrank : units rank = m * 2 ^ zeros) : rank < infinityRank := by
  obtain ⟨top, htop⟩ : ∃ top, top = 2046 := ⟨_, rfl⟩
  have hsplit : infinityRank = top * binade + binade := by
    rw [htop]
    decide
  have hinfinity : units infinityRank = binade * 2 ^ top := by
    rw [hsplit, units_shift (fun _ => Nat.le_refl binade) (by decide)]
  have hpow : 2 ^ (zeros + 1) ≤ 2 ^ top := Nat.pow_le_pow_right (by decide) (by omega)
  apply units_strictMono.lt_iff_lt.mp
  calc units rank = m * 2 ^ zeros := hrank
    _ < 2 * binade * 2 ^ zeros := Nat.mul_lt_mul_of_pos_right hm (Nat.two_pow_pos zeros)
    _ = binade * 2 ^ (zeros + 1) := by
        rw [Nat.pow_succ]
        ring
    _ ≤ binade * 2 ^ top := Nat.mul_le_mul_left binade hpow
    _ = units infinityRank := hinfinity.symm

/-- A whole number that is a double is rounded to itself. -/
theorem units_nearestRank {n : Nat} (h : IsExact n) : units (nearestRank n 1) = n <<< 1074 := by
  obtain ⟨m, zeros, hm, hzeros, rfl⟩ := h
  obtain ⟨rank, hrank⟩ := exists_units hm (zeros + 1074)
  have hfinite : rank < infinityRank := lt_infinityRank hm (by omega) hrank
  have hshift (k : Nat) : (m * 2 ^ zeros) <<< k = m * 2 ^ (zeros + k) := by
    rw [Nat.shiftLeft_eq, Nat.mul_assoc, ← Nat.pow_add]
  have hsize : units rank = (m * 2 ^ zeros) <<< 1074 := hrank.trans (hshift 1074).symm
  rw [nearestRank_of_units Nat.one_pos (Nat.le_of_lt hfinite) (by rw [hsize, Nat.mul_one]), hsize]

/-- The quotient of two whole numbers that are doubles is rounded once only. -/
theorem quotientRank_of_isExact {n d : Nat} (hn : IsExact n) (hd : IsExact d) :
    quotientRank (nearestRank n 1) (nearestRank d 1) = nearestRank n d := by
  rw [quotientRank, units_nearestRank hn, units_nearestRank hd, Nat.shiftLeft_eq, Nat.shiftLeft_eq,
    nearestRank_mul_right _ _ (Nat.two_pow_pos 1074)]

/-- A quotient beyond the largest double is rounded to infinity. -/
theorem nearestRank_of_large {num den : Nat} (hden : 0 < den)
    (h : units infinityRank * den ≤ num <<< 1074) : nearestRank num den = infinityRank := by
  by_contra hne
  have hfinite : nearestRank num den < infinityRank :=
    Nat.lt_of_le_of_ne (nearestRank_le num den) hne
  have habove := (nearest_nearestRank hden hfinite).above
  have hless : units (nearestRank num den) + units (nearestRank num den + 1) < 2 * units infinityRank := by
    have hhere := units_strictMono hfinite
    have hnext : units (nearestRank num den + 1) ≤ units infinityRank :=
      units_strictMono.monotone hfinite
    omega
  have hmul := Nat.mul_lt_mul_of_pos_right hless hden
  rw [Nat.mul_assoc] at hmul
  omega

/-- A quotient below half of the size of infinity is rounded to a finite double. -/
theorem nearestRank_lt_infinityRank {num den : Nat} (hden : 0 < den)
    (h : 2 * num <<< 1074 < units infinityRank * den) : nearestRank num den < infinityRank := by
  by_contra hnot
  have hlarge : infinityRank ≤ unboundedRank num den := by
    rw [nearestRank_eq_min] at hnot
    omega
  have hpos : 0 < infinityRank := by decide
  have hbelow := (nearest_unboundedRank num hden).below (by omega)
  have hsize : units infinityRank ≤ units (unboundedRank num den - 1) + units (unboundedRank num den) :=
    Nat.le_trans (units_strictMono.monotone hlarge) (Nat.le_add_left _ _)
  have hmul := Nat.mul_le_mul_right den hsize
  omega

/-- A quotient that lies between the midpoints around a normal double differs from it by less than
`2 ^ -53` of the double. -/
theorem Nearest.bounds {num den rank : Nat} (h : Nearest num den rank) (hrank : binade < rank) :
    2 * binade * (num <<< 1074) ≤ (2 * binade + 1) * (units rank * den) ∧
      (2 * binade - 1) * (units rank * den) ≤ 2 * binade * (num <<< 1074) := by
  obtain ⟨before, rfl⟩ : ∃ before, rank = before + 1 := ⟨rank - 1, by omega⟩
  obtain ⟨up, -, hup, -, hupper⟩ := exists_step (before + 1)
  obtain ⟨down, -, hdown, -, hlower⟩ := exists_step before
  have habove := h.above
  have hbelow := h.below (Nat.succ_pos before)
  have hupper := Nat.mul_le_mul_right den (hupper (Nat.le_of_lt hrank))
  have hlower := Nat.mul_le_mul_right den (hlower (by omega))
  rw [hup] at habove
  rw [Nat.add_sub_cancel] at hbelow
  have hwhole : (units (before + 1) + (units (before + 1) + up)) * den =
      2 * (units (before + 1) * den) + up * den := by ring
  have hsum : units (before + 1) * den = units before * den + down * den := by
    rw [hdown, Nat.add_mul]
  have hbinade : binade = 4503599627370496 := by decide
  rw [Nat.add_mul] at hbelow
  rw [Nat.mul_assoc] at hupper hlower
  rw [hbinade] at hupper hlower ⊢
  omega

end Lexemes.Binary64

namespace Lexemes.Decimal

theorem ten_pow_pos (k : Nat) : 0 < Nat.pow 10 k := Nat.pow_pos (by decide)

theorem twice_shiftLeft_lt (c n : Nat) : 2 * c <<< n < 2 ^ (c.log2 + 1 + (n + 1)) := by
  have hlog : c < 2 ^ (c.log2 + 1) := Nat.lt_log2_self
  calc 2 * c <<< n = c * 2 ^ (n + 1) := by
        rw [Nat.shiftLeft_eq, Nat.pow_succ]
        ring
    _ < 2 ^ (c.log2 + 1) * 2 ^ (n + 1) := Nat.mul_lt_mul_of_pos_right hlog (Nat.two_pow_pos _)
    _ = 2 ^ (c.log2 + 1 + (n + 1)) := (Nat.pow_add 2 _ _).symm

/-- A decimal that is left out as too small is nearest to zero. -/
theorem nearestRank_of_tiny {c k : Nat} (h : c.log2 + 1 + (1074 + 1) ≤ 3 * k) :
    Binary64.nearestRank c (Nat.pow 10 k) = 0 := by
  apply Binary64.nearestRank_of_between (ten_pow_pos k) (Nat.zero_le _)
  · have hone : Binary64.units 0 + Binary64.units (0 + 1) = 1 := by decide
    rw [hone, Nat.one_mul]
    calc 2 * c <<< 1074 < 2 ^ (c.log2 + 1 + (1074 + 1)) := twice_shiftLeft_lt c 1074
      _ ≤ 2 ^ (3 * k) := Nat.pow_le_pow_right (by decide) h
      _ = 8 ^ k := Nat.pow_mul 2 3 k
      _ ≤ 10 ^ k := Nat.pow_le_pow_left (by decide) k
  · intro h
    exact absurd h (Nat.lt_irrefl 0)

/-- A decimal that is left out as too large is nearest to infinity. -/
theorem nearestRank_of_huge {c k : Nat} (hc : 0 < c) (hk : 309 < k) :
    Binary64.nearestRank (c * Nat.pow 10 k) 1 = Binary64.infinityRank := by
  obtain ⟨n, hn⟩ : ∃ n, n = 310 := ⟨_, rfl⟩
  have hlimit : Binary64.units Binary64.infinityRank * 1 ≤ Nat.pow 10 n <<< 1074 := by
    rw [hn]
    decide +kernel
  have hpow : Nat.pow 10 n ≤ c * Nat.pow 10 k :=
    Nat.le_trans (Nat.pow_le_pow_right (by decide) (by omega)) (Nat.le_mul_of_pos_left _ hc)
  apply Binary64.nearestRank_of_large Nat.one_pos
  apply Nat.le_trans hlimit
  rw [Nat.shiftLeft_eq, Nat.shiftLeft_eq]
  exact Nat.mul_le_mul_right _ hpow

/-- No power is left out that would change the result: the double nearest to a decimal is the one
nearest to its quotient. -/
theorem nearestRank_eq (d : Decimal) :
    d.nearestRank =
      Binary64.nearestRank (d.coefficient * Nat.pow 10 d.exponent.toNat)
        (Nat.pow 10 (-d.exponent).toNat) := by
  have hnil : Nat.pow 10 0 = 1 := rfl
  rw [nearestRank]
  split
  next hzero => rw [hzero, Nat.zero_mul, Binary64.nearestRank_zero (ten_pow_pos _)]
  next hpos =>
    split
    next hlarge =>
      have hden : (-d.exponent).toNat = 0 := by omega
      rw [hden, hnil, nearestRank_of_huge (Nat.pos_of_ne_zero hpos) (by omega)]
    next hsmall =>
      split
      next htiny =>
        have hnum : d.exponent.toNat = 0 := by omega
        rw [hnum, hnil, Nat.mul_one, nearestRank_of_tiny (by omega)]
      next =>
        split
        next hwhole =>
          have hden : (-d.exponent).toNat = 0 := by omega
          rw [hden, hnil]
        next hfraction =>
          have hnum : d.exponent.toNat = 0 := by omega
          rw [hnum, hnil, Nat.mul_one]

end Lexemes.Decimal
