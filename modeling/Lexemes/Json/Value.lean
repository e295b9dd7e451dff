import Lexemes.Json.Number
import Lexemes.Json.String

namespace Lexemes.Json.Reader

def beginsNumber (c : Char) : Bool := c == '-' || c.isDigit

/-- The letters after the first one in the three words of JSON. -/
def wordTail? (c : Char) : Option (List Char) :=
  if c = 'n' then some ['u', 'l', 'l']
  else if c = 't' then some ['r', 'u', 'e']
  else if c = 'f' then some ['a', 'l', 's', 'e']
  else none

/-- Refuses the value that begins here. Words, numbers and strings are read to their end first. -/
def refuse {α : Type} : Reader α := do
  let c ← ahead
  match wordTail? c with
  | some tail =>
    skip
    expectAll tail
    throw .mismatch
  | none =>
    if beginsNumber c then
      let _ ← number
      throw .mismatch
    else if c = '"' then
      let _ ← string
      throw .mismatch
    else if c = '[' ∨ c = '{' then throw .mismatch
    else throw .malformed

def null : Reader Unit := do
  if (← ahead) = 'n' then expectAll ['n', 'u', 'l', 'l'] else refuse

def bool : Reader Bool := do
  let c ← ahead
  if c = 't' then
    expectAll ['t', 'r', 'u', 'e']
    return true
  else if c = 'f' then
    expectAll ['f', 'a', 'l', 's', 'e']
    return false
  else refuse

def anyNumber : Reader Number := do
  if beginsNumber (← ahead) then number else refuse

def whole : Reader Int := do
  match ← anyNumber with
  | .whole n => return n
  | .double _ => throw .mismatch

def natural : Reader Nat := do
  let n ← whole
  if 0 ≤ n ∧ n.toNat < UInt64.size then return n.toNat else throw .mismatch

def integer : Reader Int64 := do
  let n ← whole
  if Numeral.fitsInt64 n then return Int64.ofInt n else throw .mismatch

def double : Reader Binary64 := do
  match ← anyNumber with
  | .whole n => return .ofQuotient (n < 0) n.natAbs 1
  | .double x => return x

def text : Reader (List Char) := do
  if (← ahead) = '"' then string else refuse

/-- Reads the key of a member, which is a string. Whatever else stands in its place makes the text
malformed. -/
def key : Reader (List Char) := do
  if (← ahead) = '"' then string else throw .malformed

def character : Reader Char := do
  match ← text with
  | [c] => return c
  | _ => throw .mismatch

end Lexemes.Json.Reader
