import Lexemes.Number.Decimal

/-!
The shortest decimal that reads back as a given double.

The multiples of a power of ten form a grid. The shortest decimals of a double lie on the coarsest
grid that has a point to which that double is the nearest one. Of the points of that grid, one of the
two neighbours of the double is taken: the nearer one of those that read back.
-/

namespace Lexemes

/-- Which of two equally near neighbours is taken. -/
inductive Tie
  | up
  | toEven
deriving DecidableEq, Repr

namespace Shortest

def readsAs (rank : Nat) (d : Decimal) : Bool := d.nearestRank == rank

/-- The nearer neighbour of a double among the multiples of `10 ^ exponent` next to it, provided that
it reads back. -/
def onGrid? (tie : Tie) (rank : Nat) (exponent : Int) : Option Nat :=
  let num := Binary64.units rank * Nat.pow 10 (-exponent).toNat
  let den := Nat.pow 10 exponent.toNat <<< 1074
  let below := num / den
  let twice := 2 * (num % den)
  match readsAs rank ⟨below, exponent⟩, readsAs rank ⟨below + 1, exponent⟩ with
  | false, false => none
  | true, false => some below
  | false, true => some (below + 1)
  | true, true =>
    -- Both neighbours read back, so the distances decide.
    if twice < den then some below
    else if den < twice then some (below + 1)
    else match tie with
      | .up => some (below + 1)
      | .toEven => some (below + below % 2)

/-- The number of decimal digits before the point of the double of a rank. -/
def wholeDigits (rank : Nat) : Nat := (Nat.toDigits 10 (Binary64.units rank >>> 1074)).length

/-- The exponents of the grids that are searched, the coarsest first. On a grid whose step has two more
digits than the double the neighbours are zero and a number that is ten times as large, and the grid
of step `10 ^ -324` is finer than the doubles. -/
def exponents (rank : Nat) : List Int :=
  (List.range (wholeDigits rank + 325)).map fun i : Nat => (wholeDigits rank : Int) - i

/-- The shortest decimal that reads as the finite double of a rank. -/
def decimal (tie : Tie) (rank : Nat) : Decimal :=
  if rank = 0 then ⟨0, 0⟩
  else ((exponents rank).findSome? fun e => (onGrid? tie rank e).map (⟨·, e⟩)).getD ⟨0, 0⟩

end Shortest

end Lexemes
