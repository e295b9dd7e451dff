import Lexemes.Number.Shortest

namespace Lexemes

/-- The decisions of a written form of doubles: which of two shortest decimals is taken, whether a
whole number ends in a point and a zero, and between which exponents of the leading digit no exponent
is written. -/
structure Layout where
  tie : Tie
  wholePoint : Bool
  positional : Int → Bool

namespace Layout

/-- Doubles in messages: digits and point only, and no point after whole numbers. -/
def plain : Layout := ⟨.up, false, fun _ => true⟩

/-- Doubles in JSON: always with a point or an exponent, the latter below `10 ^ -5` and from `10 ^ 16`
on. -/
def json : Layout := ⟨.toEven, true, fun e => -5 ≤ e && e ≤ 15⟩

/-- A decimal written without an exponent: zeros fill the places up to the point. -/
def positionalText (wholePoint : Bool) (d : Decimal) : List Char :=
  let digits := Nat.toDigits 10 d.coefficient
  if 0 ≤ d.exponent then
    digits ++ List.replicate d.exponent.toNat '0' ++ if wholePoint then ['.', '0'] else []
  else
    let places := (-d.exponent).toNat
    -- The point falls among the digits, or zeros have to lead up to them.
    if places < digits.length then
      digits.take (digits.length - places) ++ '.' :: digits.drop (digits.length - places)
    else '0' :: '.' :: List.replicate (places - digits.length) '0' ++ digits

def leadingExponent (d : Decimal) : Int :=
  d.exponent + (Nat.toDigits 10 d.coefficient).length - 1

/-- A decimal written with one digit before the point and an exponent with its sign. -/
def scientificText (d : Decimal) : List Char :=
  let e := leadingExponent d
  let sign := if e < 0 then '-' else '+'
  let mantissa :=
    match Nat.toDigits 10 d.coefficient with
    | first :: second :: rest => first :: '.' :: second :: rest
    | digits => digits
  mantissa ++ 'e' :: sign :: Nat.toDigits 10 e.natAbs

def decimalText (l : Layout) (d : Decimal) : List Char :=
  if l.positional (leadingExponent d) then positionalText l.wholePoint d else scientificText d

def finiteText (l : Layout) (x : Binary64) : List Char :=
  (if x.negative then ['-'] else []) ++ l.decimalText (Shortest.decimal l.tie x.rank)

end Layout

def Binary64.display (x : Binary64) : List Char :=
  if x.isNaN then ['N', 'a', 'N']
  else if x.isFinite then Layout.plain.finiteText x
  else if x.negative then ['-', 'i', 'n', 'f'] else ['i', 'n', 'f']

end Lexemes
