import Lexemes.Number.Decimal

namespace Lexemes.Numeral

def ofNat (n : Nat) : List Char := Nat.toDigits 10 n

def ofInt (n : Int) : List Char :=
  if n < 0 then '-' :: ofNat n.natAbs else ofNat n.natAbs

/-- Takes a sign off a text; without one the text is positive. -/
def splitSign : List Char → Bool × List Char
  | '-' :: rest => (true, rest)
  | '+' :: rest => (false, rest)
  | text => (false, text)

def digitsValue (digits : List Char) : Nat := Nat.ofDigitChars 10 digits 0

def natural? (text : List Char) : Option Nat :=
  if text.isEmpty || !text.all Char.isDigit then none else some (digitsValue text)

/-- The number that a text spells if it is decimal digits after an optional sign. -/
def signed? (text : List Char) : Option Int :=
  match splitSign text with
  | (true, digits) => (natural? digits).map fun n => -(n : Int)
  | (false, digits) => (natural? digits).map fun n => (n : Int)

def fitsInt64 (n : Int) : Bool := Int64.minValue.toInt ≤ n && n ≤ Int64.maxValue.toInt

def integer? (text : List Char) : Option Int64 :=
  match signed? text with
  | some n => if fitsInt64 n then some (Int64.ofInt n) else none
  | none => none

/-- The exponent that ends a numeral: nothing, or the letter `e` and a number. -/
def exponent? : List Char → Option Int
  | [] => some 0
  | c :: rest => if c = 'e' ∨ c = 'E' then signed? rest else none

/-- The decimal that a text without a sign spells: digits with at most one point among or around
them, and an optional exponent. -/
def decimal? (text : List Char) : Option Decimal :=
  let whole := text.takeWhile Char.isDigit
  let afterWhole := text.dropWhile Char.isDigit
  let (fraction, rest) :=
    match afterWhole with
    | '.' :: afterPoint => (afterPoint.takeWhile Char.isDigit, afterPoint.dropWhile Char.isDigit)
    | _ => ([], afterWhole)
  -- A point without a digit on either side is no number.
  if whole.isEmpty && fraction.isEmpty then none
  else (exponent? rest).map fun e => ⟨digitsValue (whole ++ fraction), e - fraction.length⟩

/-- The double that a text spells: a numeral, rounded to the nearest double, or in letters of either
case one of the words for infinity and for no number, after an optional sign. -/
def float? (text : List Char) : Option Binary64 :=
  let (negative, rest) := splitSign text
  match decimal? rest with
  | some d => some (d.toBinary64 negative)
  | none =>
    let word := String.ofList (rest.map Char.toLower)
    if word == "inf" || word == "infinity" then some (.infinity negative)
    else if word == "nan" then some (.notANumber negative)
    else none

end Lexemes.Numeral
