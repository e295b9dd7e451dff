import Lexemes.Json.Value

namespace Lexemes.Json.Reader

inductive Frame
  | array
  | object
deriving DecidableEq, Repr

def Frame.close : Frame → Char
  | array => ']'
  | object => '}'

def skipEscape : Reader Unit := do
  let letter ← next
  if (escaped? letter).isSome then return ()
  else if letter = 'u' then
    let _ ← codeUnit
  else throw .malformed

/-- Passes over a string from behind its opening quote, with fewer characters and escapes than the given
number. -/
def skipStringBody : Nat → Reader Unit
  | 0 => throw .malformed
  | n + 1 => do
    let c ← next
    if c = '"' then return ()
    else if c = '\\' then
      skipEscape
      skipStringBody n
    -- Control characters stand in a string as escapes only.
    else if c.toNat < 0x20 then throw .malformed
    else skipStringBody n

def skipString : Reader Unit := do
  let text ← get
  skip
  skipStringBody text.length

def skipDigits : Reader Unit := do
  if (← digits).isEmpty then throw .malformed

/-- Passes over a number. Where it lacks a digit it is malformed, also at the end of the text. -/
def skipNumber : Reader Unit := do
  if (← peek?) = some '-' then skip
  let before ← digits
  -- A zero begins no longer run of digits.
  if before.isEmpty ∨ (before.head? = some '0' ∧ before.length ≠ 1) then throw .malformed
  if (← peek?) = some '.' then
    skip
    skipDigits
  let mark? ← peek?
  if mark? = some 'e' ∨ mark? = some 'E' then
    skip
    let _ ← exponentSign
    skipDigits

def skipKey : Reader Unit := do
  if (← ahead) = '"' then skipString else throw .malformed
  punctuation ':'

/-- Passes over the end of a value: all closing marks that come next, and the comma before the next
value of the innermost array or object that stays open. What remains open is told. -/
def skipEnd : List Frame → Reader (List Frame)
  | [] => return []
  | frame :: outer => do
    let c ← ahead
    if c = frame.close then
      skip
      skipEnd outer
    else if c = ',' then
      skip
      if frame = .object then skipKey
      return frame :: outer
    else throw .malformed

/-- Passes over the opening of an array or an object: its mark, and its closing mark if it is empty.
What is open then, and whether a value has ended, is told. -/
def skipOpening (frame : Frame) (outer : List Frame) : Reader (Bool × List Frame) := do
  skip
  if (← ahead) = frame.close then
    skip
    return (true, outer)
  else
    if frame = .object then skipKey
    return (false, frame :: outer)

/-- Passes over the beginning of a value: all of it, or the opening of an array or an object. What is
open then, and whether a value has ended, is told. -/
def skipBeginning (outer : List Frame) : Reader (Bool × List Frame) := do
  let c ← ahead
  match wordTail? c with
  | some tail =>
    skip
    expectAll tail
    return (true, outer)
  | none =>
    if beginsNumber c then
      skipNumber
      return (true, outer)
    else if c = '"' then
      skipString
      return (true, outer)
    else if c = '[' then skipOpening .array outer
    else if c = '{' then skipOpening .object outer
    else throw .malformed

/-- Passes over values until nothing is open, with fewer beginnings than the given number. -/
def skipUntilClosed : Nat → List Frame → Reader Unit
  | 0, _ => throw .malformed
  | n + 1, opened => do
    let (ended, opened) ← skipBeginning opened
    -- What follows a value that has ended may end what it stands in, and so on outwards.
    let opened ← if ended then skipEnd opened else pure opened
    if ended ∧ opened.isEmpty then return () else skipUntilClosed n opened

/-- Passes over a value. Every beginning takes a character at least, so there are no more of them than
characters. -/
def skipValue : Reader Unit := do
  skipUntilClosed ((← get).length + 1) []

end Lexemes.Json.Reader
