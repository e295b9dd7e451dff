import Lexemes.Number.Binary64

namespace Lexemes

/-- The number `coefficient * 10 ^ exponent`. -/
structure Decimal where
  coefficient : Nat
  exponent : Int
deriving DecidableEq, Repr

namespace Decimal

/-- The rank of the double nearest to a decimal. Above `10 ^ 309` that is infinity, and a decimal
below `2 ^ -1075`, half of the smallest positive double, is nearest to zero; every power in between is
computed. As `10 ^ e` is at most `8 ^ e` for a negative `e`, a decimal is below
`2 ^ (log2 coefficient + 1 + 3 * e)` then. -/
def nearestRank (d : Decimal) : Nat :=
  if d.coefficient = 0 then 0
  else if 309 < d.exponent then Binary64.infinityRank
  else if (d.coefficient.log2 : Int) + 1 + 3 * d.exponent ≤ -1076 then 0
  else if 0 ≤ d.exponent then Binary64.nearestRank (d.coefficient * Nat.pow 10 d.exponent.toNat) 1
  else Binary64.nearestRank d.coefficient (Nat.pow 10 (-d.exponent).toNat)

theorem nearestRank_le (d : Decimal) : d.nearestRank ≤ Binary64.infinityRank := by
  unfold nearestRank
  split
  · exact Nat.zero_le _
  split
  · exact Nat.le_refl _
  split
  · exact Nat.zero_le _
  split <;> exact Binary64.nearestRank_le _ _

def toBinary64 (negative : Bool) (d : Decimal) : Binary64 :=
  .ofRank negative d.nearestRank d.nearestRank_le

end Decimal

end Lexemes
