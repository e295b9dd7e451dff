import Lexemes.Cursor
import Lexemes.Grammar
import Lexemes.Text.Blank

/-!
One step of the scanner: blanks are passed over and one token is read, character by character.

A step looks at the text through `peek`, `take` and `lexeme` only. Each of them refuses to work when the
cursor stands after the end of the text, `take` also at the end of the text, and `lexeme` also when the
cursor stands before the start of the token. At the end of the text `peek` shows NUL, and words and numbers
end there because NUL belongs to neither.
-/

namespace Lexemes

/-- What a step works on: the cursor at the start of a token, the cursor that it has reached, and the number
of characters before the end of the text. The start is that of the step before until the blanks are
behind the cursor. -/
structure Span where
  start : Cursor
  cursor : Cursor
  limit : Nat

/-- The span of a step that has passed over some characters from a cursor on. -/
def Span.passing (start cursor : Cursor) (count : Nat) : Span :=
  ⟨start, cursor.advance count, cursor.limit⟩

/-- The span of a step that has read some characters since the start of its token. -/
abbrev Span.reading (start : Cursor) (count : Nat) : Span := .passing start start count

/-- Whether the cursor stands between the start of the token and the end of the text. -/
def Span.InOrder (s : Span) : Prop :=
  s.start.offset ≤ s.cursor.offset ∧ s.cursor.offset ≤ s.limit

instance : DecidablePred Span.InOrder := fun _ => inferInstanceAs (Decidable (_ ∧ _))

/-- Why a step ends without a token: it was refused a look at the text, a run went on for longer than it was
given, or the text is wrong. -/
inductive Stop
  | outOfText
  | spent
  | fault (fault : Fault)
deriving DecidableEq, Repr

/-- A part of a step. It moves the cursor also when it fails. -/
abbrev Step (α : Type) : Type := ExceptT Stop (StateM Span) α

namespace Step

def exec {α : Type} (p : Step α) (s : Span) : Except Stop α × Span :=
  (ExceptT.run p).run s

/-- The cursor, provided that it is not after the end of the text. -/
def here : Step Cursor := do
  let span ← get
  if span.cursor.offset ≤ span.limit then return span.cursor
  else throw .outOfText

/-- The next character. At the end of the text it is NUL, which may also stand in the text. -/
def peek : Step Char := do
  return (← here).rest.headD '\x00'

def take : Step Char := do
  let cursor ← here
  match cursor.rest with
  | [] => throw .outOfText
  | c :: rest =>
    modify fun span => { span with cursor := ⟨cursor.position.after c, rest⟩ }
    return c

/-- The text from the start of the token to the cursor. -/
def lexeme : Step (List Char) := do
  let span ← get
  if span.InOrder then return span.start.rest.take (span.cursor.offset - span.start.offset)
  else throw .outOfText

def position : Step Position := do
  return (← get).cursor.position

def startPosition : Step Position := do
  return (← get).start.position

/-- The number of characters ahead. -/
def room : Step Nat := do
  return (← get).cursor.rest.length

def atEnd : Step Bool := do
  return (← get).cursor.atEnd

/-- Whether what `peek` shows belongs to a class of characters, to which NUL is not to belong. -/
def shows (p : Char → Bool) : Step Bool := do
  return p (← peek)

/-- Whether a character that belongs to a class is ahead. -/
def ahead (p : Char → Bool) : Step Bool := do
  if ← atEnd then return false
  else return p (← peek)

def giveUp : Step Unit := throw .spent

/-- Reads on as long as a test succeeds, and gives up if that takes more tests than are given. -/
def takeUpTo (test : Step Bool) : Nat → Step Unit
  | 0 => giveUp
  | n + 1 => do
    if ← test then
      let _ ← take
      takeUpTo test n

def takeRun (test : Step Bool) : Step Unit := do
  -- There is a test for each character ahead and one at the end of the text.
  takeUpTo test ((← room) + 1)

def skipBlanks : Step Unit := takeRun (ahead Text.isBlank)

def begin : Step Unit :=
  modify fun span => { span with start := span.cursor }

def token (kind : Kind) (payload : Payload) : Step Token := do
  let text ← lexeme
  return ⟨kind, String.ofList text, payload, ← startPosition⟩

/-- The token that ends at the cursor and stands for its own text. -/
def textToken (kind : String → Kind) : Step Token := do
  let text := String.ofList (← lexeme)
  token (kind text) (.text text)

def fail {α : Type} (f : Fault) : Step α := throw (.fault f)

def word : Step Token := do
  let _ ← take
  takeRun (shows Grammar.isWordPart)
  textToken Grammar.wordKind

def number : Step Token := do
  let _ ← take
  takeRun (shows Grammar.isNumberPart)
  let run ← lexeme
  match Grammar.number? run with
  | some (kind, payload) => token kind payload
  | none => fail (.malformed (String.ofList run))

/-- Reads the end of a character literal: its closing quote or, if quotes are not looked for, whatever
character is next. -/
def closeCharacter : Mode → Step Unit
  | .strict => do
    if ← ahead (· == '\'') then
      let _ ← take
    else fail .unterminated
  | .lenient => do
    -- The third character is taken without a look at what it is.
    if !(← atEnd) then
      let _ ← take

def character (mode : Mode) : Step Token := do
  let _ ← take
  if ← atEnd then fail .unterminated
  else
    -- A quote may stand here too: the literal has a character of its own in any case.
    let c ← take
    closeCharacter mode
    token .character (.char c)

def tokenAt (mode : Mode) (c : Char) : Step Token :=
  match Punctuation.ofChar? c with
  | some mark => do
    let _ ← take
    textToken fun _ => .punctuation mark
  | none =>
    if c.isAlpha then word
    else if Grammar.isNumberStart c then number
    else if c = '\'' then character mode
    else fail (.unknown c)

/-- Reads the token that begins with the next character. Without one it is the end of the input. -/
def tokenAhead (mode : Mode) : Step Token := do
  if ← atEnd then
    return .endOfInput (← position)
  else
    tokenAt mode (← peek)

def scan (mode : Mode) : Step Token := do
  skipBlanks
  begin
  tokenAhead mode

end Step

end Lexemes
