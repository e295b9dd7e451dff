namespace Lexemes.Json

/-- What is wrong with a text: it ends too early, it is no JSON, or it is JSON but not of the form
that is asked for. -/
inductive Failure
  | endOfText
  | malformed
  | mismatch
deriving DecidableEq, Repr

/-- A reader takes its part off a text, or fails with the first thing that is wrong in it. -/
abbrev Reader (α : Type) : Type := StateT (List Char) (Except Failure) α

def isBlank (c : Char) : Bool := c == ' ' || c == '\n' || c == '\t' || c == '\r'

namespace Reader

def peek? : Reader (Option Char) := do
  return (← get).head?

def skip : Reader Unit := modify List.tail

/-- The next character, at which the text must not end. -/
def next : Reader Char := do
  match ← get with
  | [] => throw .endOfText
  | c :: rest =>
    set rest
    return c

def expect (c : Char) : Reader Unit := do
  if (← next) ≠ c then throw .malformed

def expectAll : List Char → Reader Unit
  | [] => return ()
  | c :: rest => do
    expect c
    expectAll rest

/-- The next character after the blanks, which stays to be read. -/
def ahead : Reader Char := do
  modify (List.dropWhile isBlank)
  match ← peek? with
  | none => throw .endOfText
  | some c => return c

def punctuation (c : Char) : Reader Unit := do
  if (← ahead) = c then skip else throw .malformed

def digits : Reader (List Char) := do
  let text ← get
  set (text.dropWhile Char.isDigit)
  return text.takeWhile Char.isDigit

/-- Reads a whole text: only blanks may follow what the reader takes off it. -/
def readAll {α : Type} (r : Reader α) (text : List Char) : Except Failure α := do
  let (a, rest) ← StateT.run r text
  if rest.all isBlank then return a else throw .malformed

end Reader

end Lexemes.Json
