import Lexemes.Number.Shortest
import Lexemes.Proofs.Number.Rounding

namespace Lexemes.Shortest

/-- The double of a rank in steps of `10 ^ e` is the quotient of these two numbers. -/
def gridNum (rank : Nat) (e : Int) : Nat := Binary64.units rank * Nat.pow 10 (-e).toNat

def gridDen (e : Int) : Nat := Nat.pow 10 e.toNat <<< 1074

/-- The multiple of `10 ^ e` that comes before the double of a rank. -/
def below (rank : Nat) (e : Int) : Nat := gridNum rank e / gridDen e

variable {tie : Tie} {rank c : Nat} {e : Int}

/-- A neighbour that reads back is taken on a grid, and if there is none, nothing is. -/
theorem onGrid?_cases (tie : Tie) (rank : Nat) (e : Int) :
    (onGrid? tie rank e = none ∧ readsAs rank ⟨below rank e, e⟩ = false ∧
        readsAs rank ⟨below rank e + 1, e⟩ = false) ∨
      (onGrid? tie rank e = some (below rank e) ∧ readsAs rank ⟨below rank e, e⟩ = true) ∨
      (onGrid? tie rank e = some (below rank e + 1) ∧ readsAs rank ⟨below rank e + 1, e⟩ = true) := by
  have hbelow : Binary64.units rank * Nat.pow 10 (-e).toNat / (Nat.pow 10 e.toNat <<< 1074) =
      below rank e := rfl
  simp only [onGrid?, hbelow]
  cases hlow : readsAs rank ⟨below rank e, e⟩ with
  | false =>
    cases hhigh : readsAs rank ⟨below rank e + 1, e⟩ with
    | false => exact Or.inl ⟨rfl, rfl, rfl⟩
    | true => exact Or.inr (Or.inr ⟨rfl, rfl⟩)
  | true =>
    cases hhigh : readsAs rank ⟨below rank e + 1, e⟩ with
    | false => exact Or.inr (Or.inl ⟨rfl, rfl⟩)
    | true =>
      have hparity : below rank e % 2 = 0 ∨ below rank e % 2 = 1 := by omega
      dsimp only
      split
      · exact Or.inr (Or.inl ⟨rfl, rfl⟩)
      split
      · exact Or.inr (Or.inr ⟨rfl, rfl⟩)
      cases tie with
      | up => exact Or.inr (Or.inr ⟨rfl, rfl⟩)
      | toEven =>
        rcases hparity with heven | hodd
        · exact Or.inr (Or.inl ⟨congrArg (fun n => some (below rank e + n)) heven, rfl⟩)
        · exact Or.inr (Or.inr ⟨congrArg (fun n => some (below rank e + n)) hodd, rfl⟩)

theorem onGrid?_eq_some (h : onGrid? tie rank e = some c) :
    readsAs rank ⟨c, e⟩ = true ∧ c ≤ below rank e + 1 := by
  rcases onGrid?_cases tie rank e with ⟨hnone, -⟩ | ⟨hlow, hreads⟩ | ⟨hhigh, hreads⟩
  · rw [hnone] at h
    cases h
  · obtain rfl : below rank e = c := Option.some.inj (hlow.symm.trans h)
    exact ⟨hreads, Nat.le_succ _⟩
  · obtain rfl : below rank e + 1 = c := Option.some.inj (hhigh.symm.trans h)
    exact ⟨hreads, Nat.le_refl _⟩

theorem exists_onGrid? (tie : Tie) (h : c = below rank e ∨ c = below rank e + 1)
    (hreads : readsAs rank ⟨c, e⟩ = true) : ∃ n, onGrid? tie rank e = some n := by
  rcases onGrid?_cases tie rank e with ⟨-, hlow, hhigh⟩ | ⟨hlow, -⟩ | ⟨hhigh, -⟩
  · rcases h with rfl | rfl
    · rw [hlow] at hreads
      cases hreads
    · rw [hhigh] at hreads
      cases hreads
  · exact ⟨_, hlow⟩
  · exact ⟨_, hhigh⟩

theorem mem_exponents : e ∈ exponents rank ↔ -324 ≤ e ∧ e ≤ wholeDigits rank := by
  rw [exponents, List.mem_map]
  constructor
  · rintro ⟨i, hi, rfl⟩
    rw [List.mem_range] at hi
    omega
  · rintro ⟨hlow, hhigh⟩
    refine ⟨(wholeDigits rank - e).toNat, ?_, by omega⟩
    rw [List.mem_range]
    omega

theorem pairwise_exponents (rank : Nat) : (exponents rank).Pairwise (· > ·) := by
  rw [exponents, List.pairwise_map]
  apply List.pairwise_lt_range.imp
  intro i j hij
  omega

/-- A decimal on the coarsest grid that has a point which reads back. -/
structure Found (tie : Tie) (rank : Nat) (d : Decimal) : Prop where
  mem : d.exponent ∈ exponents rank
  grid : onGrid? tie rank d.exponent = some d.coefficient
  coarsest : ∀ e ∈ exponents rank, d.exponent < e → onGrid? tie rank e = none

/-- The search finds a decimal if it comes to a grid that has one. -/
theorem found_decimal (hrank : rank ≠ 0) (he : e ∈ exponents rank) (h : onGrid? tie rank e = some c) :
    Found tie rank (decimal tie rank) := by
  obtain ⟨d, hd⟩ : ∃ d, (exponents rank).findSome?
      (fun e => (onGrid? tie rank e).map (⟨·, e⟩ : Nat → Decimal)) = some d := by
    apply Option.isSome_iff_exists.mp
    rw [List.findSome?_isSome_iff]
    exact ⟨e, he, by rw [h]; rfl⟩
  have hdecimal : decimal tie rank = d := by
    rw [decimal, if_neg hrank, hd]
    rfl
  obtain ⟨before, here, after, hsplit, hhere, hbefore⟩ := List.findSome?_eq_some_iff.mp hd
  obtain ⟨found, hfound, rfl⟩ := Option.map_eq_some_iff.mp hhere
  rw [hdecimal]
  refine ⟨?_, hfound, ?_⟩
  · rw [hsplit]
    exact List.mem_append_right _ List.mem_cons_self
  · intro coarser hcoarser hless
    have horder := pairwise_exponents rank
    rw [hsplit] at horder hcoarser
    have hmem : coarser ∈ before := by
      rcases List.mem_append.mp hcoarser with hmem | hmem
      · exact hmem
      · rcases List.mem_cons.mp hmem with rfl | hlater
        · exact absurd hless (Int.lt_irrefl _)
        · have hgt := (List.pairwise_cons.mp (List.pairwise_append.mp horder).2.1).1 coarser hlater
          exact absurd (Int.lt_trans hless hgt) (Int.lt_irrefl _)
    exact Option.map_eq_none_iff.mp (hbefore coarser hmem)

/-- The size of the double one. -/
def unit : Nat := 1 <<< 1074

theorem mul_shiftLeft (a b n : Nat) : (a * b) <<< n = a * b <<< n := by
  rw [Nat.shiftLeft_eq, Nat.shiftLeft_eq, Nat.mul_assoc]

theorem shiftLeft_eq_unit (n : Nat) : n <<< 1074 = n * unit := by
  rw [unit, ← mul_shiftLeft, Nat.mul_one]

theorem unit_pos : 0 < unit := by decide +kernel

theorem gridDen_eq (e : Int) : gridDen e = Nat.pow 10 e.toNat * unit := shiftLeft_eq_unit _

theorem gridDen_pos (e : Int) : 0 < gridDen e := by
  rw [gridDen_eq]
  exact Nat.mul_pos (Decimal.ten_pow_pos _) unit_pos

/-- The grid of the next exponent is ten times as coarse. -/
theorem grid_succ (e : Int) :
    gridDen (e + 1) * Nat.pow 10 (-e).toNat = 10 * gridDen e * Nat.pow 10 (-(e + 1)).toNat := by
  have hsucc (n : Nat) : Nat.pow 10 (n + 1) = 10 * Nat.pow 10 n := Nat.pow_succ'
  by_cases h : 0 ≤ e
  · have hnext : (e + 1).toNat = e.toNat + 1 := by omega
    have hpow : Nat.pow 10 (e + 1).toNat = 10 * Nat.pow 10 e.toNat := by rw [hnext, hsucc]
    have hden : gridDen (e + 1) = 10 * gridDen e := by
      rw [gridDen_eq, gridDen_eq, hpow, Nat.mul_assoc]
    have hnum : (-e).toNat = (-(e + 1)).toNat := by omega
    rw [hden, hnum]
  · have hsame : (e + 1).toNat = e.toNat := by omega
    have hden : gridDen (e + 1) = gridDen e := by rw [gridDen_eq, gridDen_eq, hsame]
    have hnum : (-e).toNat = (-(e + 1)).toNat + 1 := by omega
    rw [hden, hnum, hsucc, ← Nat.mul_assoc, Nat.mul_comm (gridDen e)]

/-- On a grid whose step is at most half of the step to the double before, the multiple that comes
before the double reads back. -/
theorem readsAs_below {step : Nat} (hfinite : rank < Binary64.infinityRank)
    (hstep : 0 < rank → Binary64.units rank = Binary64.units (rank - 1) + step)
    (hfine : 2 * gridDen e ≤ step * Nat.pow 10 (-e).toNat) :
    readsAs rank ⟨below rank e, e⟩ = true := by
  have hnext := Binary64.units_lt_succ rank
  have hpos := Decimal.ten_pow_pos (-e).toNat
  have hsize : (below rank e * Nat.pow 10 e.toNat) <<< 1074 = below rank e * gridDen e := by
    rw [shiftLeft_eq_unit, gridDen_eq, Nat.mul_assoc]
  have hdiv : below rank e * gridDen e + gridNum rank e % gridDen e =
      Binary64.units rank * Nat.pow 10 (-e).toNat := Nat.div_add_mod' _ _
  have hmod : gridNum rank e % gridDen e < gridDen e := Nat.mod_lt _ (gridDen_pos e)
  rw [readsAs, beq_iff_eq, Decimal.nearestRank_eq]
  apply Binary64.nearestRank_of_between hpos (Nat.le_of_lt hfinite)
  · have hless : (Binary64.units rank + Binary64.units rank) * Nat.pow 10 (-e).toNat <
        (Binary64.units rank + Binary64.units (rank + 1)) * Nat.pow 10 (-e).toNat :=
      Nat.mul_lt_mul_of_pos_right (Nat.add_lt_add_left hnext _) hpos
    rw [Nat.add_mul] at hless
    rw [hsize]
    omega
  · intro hrank
    have hhere : Binary64.units rank * Nat.pow 10 (-e).toNat =
        Binary64.units (rank - 1) * Nat.pow 10 (-e).toNat + step * Nat.pow 10 (-e).toNat := by
      rw [hstep hrank, Nat.add_mul]
    rw [hsize, Nat.add_mul]
    omega

/-- A grid that is next to one that is too coarse is not finer than needed. -/
theorem below_lt_of_coarse {step : Nat} (hstep : Binary64.units rank ≤ 2 * Binary64.binade * step)
    (hcoarse : step * Nat.pow 10 (-(e + 1)).toNat < 2 * gridDen (e + 1)) :
    below rank e < 40 * Binary64.binade := by
  have hsucc := grid_succ e
  have hhere := Decimal.ten_pow_pos (-e).toNat
  have hpos : 0 < 2 * Binary64.binade * Nat.pow 10 (-e).toNat :=
    Nat.mul_pos (by decide) hhere
  rw [below, Nat.div_lt_iff_lt_mul (gridDen_pos e), gridNum]
  generalize Nat.pow 10 (-e).toNat = here at hsucc hhere hpos ⊢
  generalize Nat.pow 10 (-(e + 1)).toNat = there at hsucc hcoarse
  apply Nat.lt_of_mul_lt_mul_right (a := there)
  calc Binary64.units rank * here * there
      ≤ 2 * Binary64.binade * step * here * there :=
        Nat.mul_le_mul_right _ (Nat.mul_le_mul_right _ hstep)
    _ = 2 * Binary64.binade * here * (step * there) := by ring
    _ < 2 * Binary64.binade * here * (2 * gridDen (e + 1)) := Nat.mul_lt_mul_of_pos_left hcoarse hpos
    _ = 4 * Binary64.binade * (gridDen (e + 1) * here) := by ring
    _ = 40 * Binary64.binade * gridDen e * there := by
        rw [hsucc]
        ring

theorem lt_shiftLeft {a b n : Nat} (h : a >>> n < b) : a < b <<< n := by
  rw [Nat.shiftRight_eq_div_pow, Nat.div_lt_iff_lt_mul (Nat.two_pow_pos n)] at h
  rw [Nat.shiftLeft_eq]
  exact h

/-- On the coarsest grid zero comes before the double. -/
theorem below_wholeDigits (rank : Nat) : below rank (wholeDigits rank) = 0 := by
  have hdigits : Binary64.units rank >>> 1074 < 10 ^ wholeDigits rank :=
    (Nat.length_toDigits_le_iff (by decide) Nat.length_toDigits_pos).mp (Nat.le_refl _)
  have hnum : gridNum rank (wholeDigits rank) = Binary64.units rank := by
    have hzero : (-(wholeDigits rank : Int)).toNat = 0 := by omega
    rw [gridNum, hzero]
    exact Nat.mul_one _
  have hden : gridDen (wholeDigits rank) = Nat.pow 10 (wholeDigits rank) <<< 1074 := rfl
  rw [below, hnum, hden]
  exact Nat.div_eq_of_lt (lt_shiftLeft hdigits)

/-- Every double but zero and infinity has a shortest decimal, with digits that fit into 64 bits. -/
theorem decimal_found (tie : Tie) (hrank : 0 < rank) (hfinite : rank < Binary64.infinityRank) :
    Found tie rank (decimal tie rank) ∧ (decimal tie rank).coefficient ≤ 40 * Binary64.binade := by
  obtain ⟨before, rfl⟩ : ∃ before, rank = before + 1 := ⟨rank - 1, by omega⟩
  obtain ⟨step, hpos, hstep, hsmall, -⟩ := Binary64.exists_step before
  have hfine (e : Int) (hfine : 2 * gridDen e ≤ step * Nat.pow 10 (-e).toNat) :
      ∃ n, onGrid? tie (before + 1) e = some n :=
    exists_onGrid? tie (Or.inl rfl) (readsAs_below hfinite (fun _ => hstep) hfine)
  have hlast : 2 * gridDen (-324) ≤ Nat.pow 10 (-(-324) : Int).toNat := by decide +kernel
  obtain ⟨n, hn⟩ := hfine (-324) (Nat.le_trans hlast (Nat.le_mul_of_pos_left _ hpos))
  have hmem : (-324 : Int) ∈ exponents (before + 1) := mem_exponents.mpr ⟨by omega, by omega⟩
  have hfound : Found tie (before + 1) (decimal tie (before + 1)) :=
    found_decimal (Nat.succ_ne_zero _) hmem hn
  refine ⟨hfound, ?_⟩
  have hneighbour := (onGrid?_eq_some hfound.grid).2
  have hbelow : below (before + 1) (decimal tie (before + 1)).exponent < 40 * Binary64.binade := by
    obtain ⟨hlow, hhigh⟩ := mem_exponents.mp hfound.mem
    by_cases htop : (decimal tie (before + 1)).exponent = wholeDigits (before + 1)
    · rw [htop, below_wholeDigits]
      decide
    · -- The next coarser grid has been searched without success, so it is not fine.
      have hnext := hfound.coarsest ((decimal tie (before + 1)).exponent + 1)
        (mem_exponents.mpr ⟨by omega, by omega⟩) (by omega)
      apply below_lt_of_coarse hsmall
      by_contra hnot
      obtain ⟨m, hm⟩ := hfine _ (Nat.le_of_not_lt hnot)
      rw [hnext] at hm
      cases hm
  omega

/-- The decimal that is written for any finite double: its digits fit into 64 bits, and it is zero with
an exponent of zero or not zero at all. -/
theorem decimal_fits (tie : Tie) (hfinite : rank < Binary64.infinityRank) :
    (decimal tie rank).coefficient < UInt64.size ∧
      ((decimal tie rank).coefficient = 0 → (decimal tie rank).exponent = 0) := by
  by_cases hrank : rank = 0
  · have hzero : decimal tie rank = ⟨0, 0⟩ := by rw [decimal, if_pos hrank]
    rw [hzero]
    exact ⟨by decide, fun _ => rfl⟩
  · obtain ⟨hfound, hsmall⟩ := decimal_found tie (Nat.pos_of_ne_zero hrank) hfinite
    have hlimit : 40 * Binary64.binade < UInt64.size := by decide
    refine ⟨Nat.lt_of_le_of_lt hsmall hlimit, ?_⟩
    intro hc
    have hreads := (onGrid?_eq_some hfound.grid).1
    rw [hc, readsAs, beq_iff_eq, Decimal.nearestRank, if_pos rfl] at hreads
    exact absurd hreads.symm hrank

section Few

variable {k : Nat}

theorem nearestRank_fraction (c k : Nat) :
    (⟨c, -(k : Int)⟩ : Decimal).nearestRank = Binary64.nearestRank c (Nat.pow 10 k) := by
  have hnum : (-(k : Int)).toNat = 0 := by omega
  have hden : (- -(k : Int)).toNat = k := by omega
  have hone : c * Nat.pow 10 0 = c := Nat.mul_one c
  rw [Decimal.nearestRank_eq, hnum, hden, hone]

theorem nearestRank_whole (c k : Nat) :
    (⟨c, (k : Int)⟩ : Decimal).nearestRank = Binary64.nearestRank (c * Nat.pow 10 k) 1 := by
  have hnum : (k : Int).toNat = k := by omega
  have hden : (-(k : Int)).toNat = 0 := by omega
  rw [Decimal.nearestRank_eq, hnum, hden]

/-- A fraction with at most 22 decimal places that is not zero is in the range of normal doubles. -/
theorem binade_lt_of_nearest (hc : 0 < c) (hk : k ≤ 22)
    (hnearest : Binary64.Nearest c (Nat.pow 10 k) rank) : Binary64.binade < rank := by
  by_contra hnot
  have hsize : Binary64.units rank + Binary64.units (rank + 1) ≤ 2 * Binary64.binade + 1 := by
    have hbinade := Binary64.binade_pos
    rw [Binary64.units_of_le (by omega), Binary64.units_of_le (by omega)]
    omega
  have hpow : Nat.pow 10 k ≤ Nat.pow 10 22 := Nat.pow_le_pow_right (by decide) hk
  have hsmall : (2 * Binary64.binade + 1) * Nat.pow 10 22 < unit := by decide +kernel
  have hone : unit ≤ c <<< 1074 := by
    rw [shiftLeft_eq_unit]
    exact Nat.le_mul_of_pos_left _ hc
  have hmul := Nat.mul_le_mul hsize hpow
  have habove := hnearest.above
  omega

/-- A fraction of few digits is in the range of finite doubles. -/
theorem nearest_fraction (hc : c < Binary64.binade) (k : Nat) :
    Binary64.Nearest c (Nat.pow 10 k) (Binary64.nearestRank c (Nat.pow 10 k)) ∧
      Binary64.nearestRank c (Nat.pow 10 k) < Binary64.infinityRank := by
  have hlimit : 2 * (Binary64.binade * unit) ≤ Binary64.units Binary64.infinityRank := by
    decide +kernel
  have hfinite : Binary64.nearestRank c (Nat.pow 10 k) < Binary64.infinityRank := by
    apply Binary64.nearestRank_lt_infinityRank (Decimal.ten_pow_pos k)
    have hless := Nat.mul_lt_mul_of_pos_right hc unit_pos
    have hpow := Nat.le_mul_of_pos_right (Binary64.units Binary64.infinityRank) (Decimal.ten_pow_pos k)
    rw [shiftLeft_eq_unit]
    omega
  exact ⟨Binary64.nearest_nearestRank (Decimal.ten_pow_pos k) hfinite, hfinite⟩

theorem below_fraction (rank k : Nat) :
    below rank (-(k : Int)) = Binary64.units rank * Nat.pow 10 k / unit := by
  have hnum : (- -(k : Int)).toNat = k := by omega
  have hden : (-(k : Int)).toNat = 0 := by omega
  have hone : Nat.pow 10 0 * unit = unit := Nat.one_mul unit
  rw [below, gridNum, gridDen_eq, hnum, hden, hone]

/-- A double that is nearest to a fraction of few digits is less than one step away from it on the grid
of its decimal places. -/
theorem close_fraction (hc : 0 < c) (hfew : c + 1 < Binary64.binade) (hk : k ≤ 22)
    (hrank : Binary64.nearestRank c (Nat.pow 10 k) = rank) :
    c * unit < Binary64.units rank * Nat.pow 10 k + unit ∧
      Binary64.units rank * Nat.pow 10 k < c * unit + unit := by
  obtain ⟨hnearest, -⟩ := nearest_fraction (Nat.lt_of_succ_lt hfew) k
  rw [hrank] at hnearest
  obtain ⟨habove, hbelow⟩ := hnearest.bounds (binade_lt_of_nearest hc hk hnearest)
  have hless : (c + 2) * unit ≤ Binary64.binade * unit := Nat.mul_le_mul_right unit hfew
  have hpos := unit_pos
  have hbinade : Binary64.binade = 4503599627370496 := by decide
  rw [shiftLeft_eq_unit] at habove hbelow
  rw [Nat.add_mul] at hless
  rw [hbinade] at habove hbelow hless
  omega

/-- The fraction is the multiple before the double if it is not larger, and else the one after it. -/
theorem neighbour_fraction (hc : 0 < c) (hfew : c + 1 < Binary64.binade) (hk : k ≤ 22)
    (hrank : Binary64.nearestRank c (Nat.pow 10 k) = rank) :
    c = below rank (-(k : Int)) ∨ c = below rank (-(k : Int)) + 1 := by
  obtain ⟨hup, hdown⟩ := close_fraction hc hfew hk hrank
  have hpos := unit_pos
  rw [below_fraction]
  generalize Binary64.units rank * Nat.pow 10 k = size at hup hdown ⊢
  by_cases hle : c * unit ≤ size
  · left
    symm
    apply Nat.div_eq_of_lt_le hle
    rw [Nat.succ_mul]
    exact hdown
  · right
    obtain ⟨m, rfl⟩ : ∃ m, c = m + 1 := ⟨c - 1, by omega⟩
    rw [Nat.add_mul, Nat.one_mul] at hup hle
    congr 1
    symm
    apply Nat.div_eq_of_lt_le
    · omega
    · rw [Nat.succ_mul]
      omega

/-- A whole number that reads as a double near a fraction is not larger than the next whole number. -/
theorem whole_le {n : Nat} (hfew : c + 1 < Binary64.binade) (hnormal : Binary64.binade < rank)
    (hclose : Binary64.units rank < c * unit + unit) (hn : Binary64.Nearest n 1 rank) :
    n ≤ c + 1 := by
  obtain ⟨habove, -⟩ := hn.bounds hnormal
  have hless : (c + 2) * unit ≤ Binary64.binade * unit := Nat.mul_le_mul_right unit hfew
  have hbinade : Binary64.binade = 4503599627370496 := by decide
  rw [shiftLeft_eq_unit, Nat.mul_one, hbinade] at habove
  rw [Nat.add_mul, hbinade] at hless
  by_contra hmore
  have hmul : (c + 2) * unit ≤ n * unit := Nat.mul_le_mul_right unit (by omega)
  rw [Nat.add_mul] at hmul
  omega

/-- On a coarser grid than that of the decimal places the multiple before the double is not larger. -/
theorem below_le {j : Nat} (hclose : Binary64.units rank * Nat.pow 10 k < c * unit + unit)
    (hj : j ≤ k) : below rank (-(j : Int)) ≤ c := by
  have hpow : Nat.pow 10 j ≤ Nat.pow 10 k := Nat.pow_le_pow_right (by decide) hj
  have hsize := Nat.mul_le_mul_left (Binary64.units rank) hpow
  apply Nat.le_of_lt_succ
  rw [below_fraction, Nat.div_lt_iff_lt_mul unit_pos, Nat.succ_mul]
  exact Nat.lt_of_le_of_lt hsize hclose

/-- The shortest decimal of a double that is nearest to a decimal of few digits has few digits too. -/
theorem decimal_of_few (tie : Tie) (hc : 0 < c) (hfew : c + 1 < Binary64.binade) (hk : k ≤ 22)
    (hrank : (⟨c, -(k : Int)⟩ : Decimal).nearestRank = rank) :
    (decimal tie rank).nearestRank = rank ∧ -(k : Int) ≤ (decimal tie rank).exponent ∧
      (decimal tie rank).coefficient * Nat.pow 10 (decimal tie rank).exponent.toNat ≤ c + 1 := by
  have hnear : Binary64.nearestRank c (Nat.pow 10 k) = rank := by rw [← nearestRank_fraction, hrank]
  obtain ⟨hnearest, hfinite⟩ := nearest_fraction (Nat.lt_of_succ_lt hfew) k
  rw [hnear] at hnearest hfinite
  have hnormal := binade_lt_of_nearest hc hk hnearest
  obtain ⟨-, hclose⟩ := close_fraction hc hfew hk hnear
  have hfound := (decimal_found tie (Nat.zero_lt_of_lt hnormal) hfinite).1
  obtain ⟨hreads, hnext⟩ := onGrid?_eq_some hfound.grid
  have hreads : (decimal tie rank).nearestRank = rank := beq_iff_eq.mp hreads
  have hcoarse : -(k : Int) ≤ (decimal tie rank).exponent := by
    by_contra hfiner
    obtain ⟨n, hn⟩ := exists_onGrid? tie (neighbour_fraction hc hfew hk hnear) (beq_iff_eq.mpr hrank)
    have hnone := hfound.coarsest (-(k : Int)) (mem_exponents.mpr ⟨by omega, by omega⟩) (by omega)
    rw [hnone] at hn
    cases hn
  refine ⟨hreads, hcoarse, ?_⟩
  generalize decimal tie rank = d at hnext hreads hcoarse ⊢
  obtain ⟨n, e⟩ := d
  dsimp only at hnext hcoarse ⊢
  by_cases he : 0 ≤ e
  · -- A whole number may be far from the double before it, but it reads as the double.
    obtain ⟨j, rfl⟩ : ∃ j : Nat, e = j := ⟨e.toNat, by omega⟩
    have hwhole : Binary64.nearestRank (n * Nat.pow 10 j) 1 = rank := by
      rw [← nearestRank_whole, hreads]
    have hn : Binary64.Nearest (n * Nat.pow 10 j) 1 rank := by
      rw [← hwhole] at hfinite ⊢
      exact Binary64.nearest_nearestRank Nat.one_pos hfinite
    have hsize := Nat.le_mul_of_pos_right (Binary64.units rank) (Decimal.ten_pow_pos k)
    rw [Int.toNat_natCast]
    exact whole_le hfew hnormal (Nat.lt_of_le_of_lt hsize hclose) hn
  · obtain ⟨j, rfl⟩ : ∃ j : Nat, e = -j := ⟨(-e).toNat, by omega⟩
    have hzero : (-(j : Int)).toNat = 0 := by omega
    have hbelow := below_le hclose (j := j) (by omega)
    rw [hzero]
    show n * 1 ≤ c + 1
    omega

end Few

end Lexemes.Shortest
