import Lexemes.Json.Reader
import Lexemes.Number.Numeral

/-!
Reading numbers: whole ones of up to 64 bits exactly, all others as doubles.

A double is computed in few steps, and is not always the one nearest to the number as it is written:
the digits that fit into 64 bits make a significand, which is rounded to a double and then multiplied
with or divided by a power of ten, with a rounding for each of these operations.
-/

namespace Lexemes.Json

inductive Number
  | whole (n : Int)
  | double (x : Binary64)
deriving DecidableEq

namespace Number

/-- Takes digits into a significand as long as it stays below `2 ^ 64`: the significand, and the digits
that have not been taken. -/
def absorb (significand : Nat) : List Char → Nat × List Char
  | [] => (significand, [])
  | d :: digits =>
    let longer := Nat.ofDigitChars 10 [d] significand
    if longer < UInt64.size then absorb longer digits else (significand, d :: digits)

def tenRank (exponent : Nat) : Nat := Decimal.nearestRank ⟨1, exponent⟩

/-- The double of a rank times a power of ten, in steps of at most `10 ^ 308`. There is none if it would
be infinite. -/
def scale? (rank : Nat) (exponent : Int) : Option Nat :=
  if exponent.natAbs ≤ 308 then
    if 0 ≤ exponent then
      let scaled := Binary64.productRank rank (tenRank exponent.natAbs)
      if scaled < Binary64.infinityRank then some scaled else none
    else some (Binary64.quotientRank rank (tenRank exponent.natAbs))
  -- Powers beyond these are infinite as doubles: a product would be too, and a quotient takes steps.
  else if rank = 0 then some 0
  else if 0 ≤ exponent then none
  else scale? (Binary64.quotientRank rank (tenRank 308)) (exponent + 308)
termination_by exponent.natAbs

theorem scale?_le {rank scaled : Nat} {exponent : Int} (h : scale? rank exponent = some scaled) :
    scaled ≤ Binary64.infinityRank := by
  fun_induction scale? rank exponent with
  | case1 _ _ _ _ _ hlt => exact Option.some.inj h ▸ Nat.le_of_lt hlt
  | case2 => cases h
  | case3 => exact Option.some.inj h ▸ Binary64.nearestRank_le _ _
  | case4 => exact Option.some.inj h ▸ Nat.zero_le _
  | case5 => cases h
  | case6 _ _ _ _ _ ih => exact ih h

def double? (negative : Bool) (significand : Nat) (exponent : Int) : Option Binary64 :=
  match h : scale? (Binary64.nearestRank significand 1) exponent with
  | some rank => some (.ofRank negative rank (scale?_le h))
  | none => none

/-- The whole number for a sign and a significand. A negative one below `-2 ^ 63`, and zero with a minus
sign, are doubles. -/
def ofSignificand (negative : Bool) (significand : Nat) : Number :=
  if !negative then whole significand
  else if 1 ≤ significand ∧ significand ≤ 1 <<< 63 then whole (-significand)
  else double (.ofQuotient true significand 1)

/-- The number for the parts that it is written in: its sign, the digits before the point, those
after a point and the exponent, if these are there. There is none if it would be infinite. -/
def ofParts? (negative : Bool) (before : List Char) (after? : Option (List Char))
    (exponent? : Option Int) : Option Number :=
  let (significand, raised) := absorb 0 before
  match after?, exponent?, raised with
  -- Only digits that have all been taken, with nothing behind them, are a whole number.
  | none, none, [] => some (ofSignificand negative significand)
  | _, _, _ =>
    let after := after?.getD []
    let (significand, left) := absorb significand after
    let taken := after.length - left.length
    -- Digits before the point that were left out raise the exponent, digits taken behind it lower it.
    (double? negative significand (exponent?.getD 0 + raised.length - taken)).map double

end Number

namespace Reader

def someDigits : Reader (List Char) := do
  match ← digits with
  | [] => throw (if (← get).isEmpty then .endOfText else .malformed)
  | found => return found

/-- Reads the digits before the point: a zero alone, or digits of which the first is no zero. -/
def wholeDigits : Reader (List Char) := do
  let found ← someDigits
  if found.head? = some '0' ∧ found.length ≠ 1 then throw .malformed
  return found

def fraction? : Reader (Option (List Char)) := do
  if (← peek?) = some '.' then
    skip
    return some (← someDigits)
  else return none

/-- Reads the sign of an exponent, if there is one, and tells whether it is a minus. -/
def exponentSign : Reader Bool := do
  let sign? ← peek?
  if sign? = some '+' ∨ sign? = some '-' then skip
  return sign? = some '-'

def exponent? : Reader (Option Int) := do
  let mark? ← peek?
  if mark? = some 'e' ∨ mark? = some 'E' then
    skip
    let negative ← exponentSign
    let value : Int := Numeral.digitsValue (← someDigits)
    return some (if negative then -value else value)
  else return none

def number : Reader Number := do
  let negative := (← peek?) = some '-'
  if negative then skip
  let before ← wholeDigits
  let after? ← fraction?
  let exponent? ← exponent?
  match Number.ofParts? negative before after? exponent? with
  | some n => return n
  | none => throw .malformed

end Reader

end Lexemes.Json
