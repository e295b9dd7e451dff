/-!
Doubles, the numbers of the IEEE 754 format of 64 bits, in exact arithmetic on natural numbers.

The doubles of one sign stand in a row: zero, the finite ones in increasing order, infinity, and the
values that are no numbers. A double is its sign and its rank in that row, which is also the number that
its lower 63 bits spell. Main statements: rounding a quotient never gives more than infinity
(`nearestRank_le`), so it never gives a value that is no number (`isNaN_ofRank`).
-/

namespace Lexemes

/-- A double: its sign and its rank among the doubles of that sign. -/
structure Binary64 where
  negative : Bool
  rank : Nat
  rank_lt : rank < 1 <<< 63
deriving DecidableEq

namespace Binary64

/-- The number of ranks over which the step from one double to the next stays the same: from one power
of two to the next there are `2 ^ 52` doubles. -/
def binade : Nat := 1 <<< 52

def infinityRank : Nat := 2047 * binade

theorem infinityRank_lt : infinityRank < 1 <<< 63 := by decide

/-- The size of a finite double as a multiple of the smallest positive one, which is `2 ^ -1074`. The
doubles of the first binade are these multiples one by one. The next binade has the same step, and
every later one a step twice as large as the one before it. -/
def units (rank : Nat) : Nat :=
  if rank < binade then rank else (binade + rank % binade) <<< (rank / binade - 1)

/-- The whole number nearest to a quotient; a half goes to the even neighbour. -/
def roundQuotient (num den : Nat) : Nat :=
  let twice := 2 * (num % den)
  if twice < den ∨ (twice = den ∧ num / den % 2 = 0) then num / den else num / den + 1

/-- The rank of the double nearest to a quotient, a half going to the even rank. The quotient is
measured in steps of `2 ^ shift` units, where the shift leaves 53 binary digits before the point. -/
def nearestRank (num den : Nat) : Nat :=
  let scaled := num <<< 1074
  let shift := (scaled / den).log2 - 52
  -- Rounding up past the last double of a binade gives the first one of the next: ranks run on.
  min infinityRank (shift * binade + roundQuotient scaled (den <<< shift))

theorem nearestRank_le (num den : Nat) : nearestRank num den ≤ infinityRank :=
  Nat.min_le_left _ _

def productRank (a b : Nat) : Nat := nearestRank (units a * units b) (1 <<< 2148)

def quotientRank (a b : Nat) : Nat := nearestRank (units a) (units b)

def ofRank (negative : Bool) (rank : Nat) (h : rank ≤ infinityRank) : Binary64 :=
  ⟨negative, rank, Nat.lt_of_le_of_lt h infinityRank_lt⟩

/-- The double of a sign nearest to a quotient. -/
def ofQuotient (negative : Bool) (num den : Nat) : Binary64 :=
  ofRank negative (nearestRank num den) (nearestRank_le num den)

def infinity (negative : Bool) : Binary64 :=
  ofRank negative infinityRank (Nat.le_refl _)

/-- The value of a sign that is no number. -/
def notANumber (negative : Bool) : Binary64 :=
  ⟨negative, infinityRank + 1 <<< 51, by decide⟩

def isNaN (x : Binary64) : Bool := infinityRank < x.rank

/-- Whether a double is a number other than the two infinities. -/
def isFinite (x : Binary64) : Bool := x.rank < infinityRank

def bits (x : Binary64) : Nat := (if x.negative then 1 <<< 63 else 0) + x.rank

/-- Equality of numbers: what is no number equals nothing, and the two zeros are equal. -/
def equal (x y : Binary64) : Bool :=
  !x.isNaN && !y.isNaN && (x == y || (x.rank == 0 && y.rank == 0))

theorem isNaN_ofRank (negative : Bool) (rank : Nat) (h : rank ≤ infinityRank) :
    (ofRank negative rank h).isNaN = false :=
  decide_eq_false (Nat.not_lt.mpr h)

theorem equal_self {x : Binary64} (h : x.isNaN = false) : x.equal x = true := by
  simp [equal, h]

end Binary64

end Lexemes
