import Lexemes.Kind
import Lexemes.Number.Layout
import Lexemes.Number.Numeral
import Lexemes.Position
import Lexemes.Text.Quoted

namespace Lexemes

/-- What a token stands for: its own text, or the value of a literal. -/
inductive Payload
  | text (content : String)
  | char (content : Char)
  | integer (value : Int64)
  | float (value : Binary64)
deriving DecidableEq

/-- A token, with the place of its first character. -/
structure Token where
  kind : Kind
  lexeme : String
  payload : Payload
  position : Position
deriving DecidableEq

namespace Payload

def text? : Payload → Option String
  | text content => some content
  | _ => none

def char? : Payload → Option Char
  | char content => some content
  | _ => none

def integer? : Payload → Option Int64
  | integer value => some value
  | _ => none

def float? : Payload → Option Binary64
  | float value => some value
  | _ => none

/-- A payload as it stands in messages: text as it is, and a character between quotes. -/
def display : Payload → List Char
  | text content => content.toList
  | char content => ['\'', content, '\'']
  | integer value => Numeral.ofInt value.toInt
  | float value => value.display

/-- Equality of payloads, where doubles are compared as numbers. -/
def equal : Payload → Payload → Bool
  | float x, float y => x.equal y
  | a, b => a == b

end Payload

namespace Token

def endOfInput (position : Position) : Token :=
  ⟨.endOfInput, "", .text "", position⟩

def isEnd (t : Token) : Bool := t.kind == .endOfInput

/-- A token as it stands in messages: its kind, its quoted text, its line and column. -/
def display (t : Token) : List Char :=
  t.kind.name.toList ++ ' ' :: Text.Quoted.quote t.lexeme.toList ++ " at ".toList ++
    Numeral.ofNat t.position.line ++ ':' :: Numeral.ofNat t.position.column

def equal (a b : Token) : Bool :=
  a.kind == b.kind && a.lexeme == b.lexeme && a.payload.equal b.payload && a.position == b.position

@[simp] theorem isEnd_endOfInput (p : Position) : (endOfInput p).isEnd = true := rfl

end Token

end Lexemes
