/-!
The kinds of token of the lambda language: five keywords, ten punctuation marks, two sorts of
identifier, three sorts of literal and the end of the input. Every kind has a tag, which stands for it
in JSON, and a name, which stands for it in messages.
-/

namespace Lexemes

inductive Keyword
  | ifWord
  | thenWord
  | elseWord
  | letWord
  | inWord
deriving DecidableEq, Repr

/-- The marks of one character that are tokens by themselves. -/
inductive Punctuation
  | leftParen
  | rightParen
  | leftBracket
  | rightBracket
  | colon
  | comma
  | dot
  | semicolon
  | backslash
  | equals
deriving DecidableEq, Repr

/-- What sort of token a token is. -/
inductive Kind
  | keyword (word : Keyword)
  | punctuation (mark : Punctuation)
  | identifier
  | lambdaIdentifier
  | character
  | integer
  | float
  | endOfInput
deriving DecidableEq, Repr

namespace Keyword

def all : List Keyword :=
  [ifWord, thenWord, elseWord, letWord, inWord]

def spelling : Keyword → String
  | ifWord => "if"
  | thenWord => "then"
  | elseWord => "else"
  | letWord => "let"
  | inWord => "in"

/-- The reserved word that is written so, letter for letter. -/
def ofSpelling? (text : String) : Option Keyword :=
  all.find? (·.spelling == text)

end Keyword

namespace Punctuation

def all : List Punctuation :=
  [leftParen, rightParen, leftBracket, rightBracket, colon, comma, dot, semicolon, backslash, equals]

def symbol : Punctuation → Char
  | leftParen => '('
  | rightParen => ')'
  | leftBracket => '['
  | rightBracket => ']'
  | colon => ':'
  | comma => ','
  | dot => '.'
  | semicolon => ';'
  | backslash => '\\'
  | equals => '='

def ofChar? (c : Char) : Option Punctuation :=
  all.find? (·.symbol == c)

end Punctuation

namespace Kind

def all : List Kind :=
  Keyword.all.map keyword ++ Punctuation.all.map punctuation ++
    [identifier, lambdaIdentifier, character, integer, float, endOfInput]

/-- The word that stands for a kind in JSON. -/
def tag : Kind → String
  | keyword .ifWord => "If"
  | keyword .thenWord => "Then"
  | keyword .elseWord => "Else"
  | keyword .letWord => "Let"
  | keyword .inWord => "In"
  | punctuation .leftParen => "LeftParen"
  | punctuation .rightParen => "RightParen"
  | punctuation .leftBracket => "LeftBracket"
  | punctuation .rightBracket => "RightBracket"
  | punctuation .colon => "Colon"
  | punctuation .comma => "Comma"
  | punctuation .dot => "Dot"
  | punctuation .semicolon => "Semicolon"
  | punctuation .backslash => "Backslash"
  | punctuation .equals => "Equals"
  | identifier => "Identifier"
  | lambdaIdentifier => "LambdaIdentifier"
  | character => "Character"
  | integer => "Integer"
  | float => "Float"
  | endOfInput => "EndOfInput"

def ofTag? (tag : String) : Option Kind :=
  all.find? (·.tag == tag)

def name : Kind → String
  | keyword .ifWord => "IF"
  | keyword .thenWord => "THEN"
  | keyword .elseWord => "ELSE"
  | keyword .letWord => "LET"
  | keyword .inWord => "IN"
  | punctuation .leftParen => "LPAREN"
  | punctuation .rightParen => "RPAREN"
  | punctuation .leftBracket => "LBRACKET"
  | punctuation .rightBracket => "RBRACKET"
  | punctuation .colon => "COLON"
  | punctuation .comma => "COMMA"
  | punctuation .dot => "DOT"
  | punctuation .semicolon => "SEMICOLON"
  | punctuation .backslash => "BACKSLASH"
  | punctuation .equals => "EQUALS"
  | identifier => "IDENTIFIER"
  | lambdaIdentifier => "LAMBDA_IDENTIFIER"
  | character => "CHARACTER"
  | integer => "INTEGER"
  | float => "FLOAT"
  | endOfInput => "END_OF_INPUT"

def isKeyword : Kind → Bool
  | keyword _ => true
  | _ => false

def isPunctuation : Kind → Bool
  | punctuation _ => true
  | _ => false

/-- Whether tokens of this kind carry a value other than their own text. -/
def isLiteral : Kind → Bool
  | character | integer | float => true
  | _ => false

theorem mem_all (k : Kind) : k ∈ all := by
  rcases k with (_ | _ | _ | _ | _) | (_ | _ | _ | _ | _ | _ | _ | _ | _ | _) | _ | _ | _ | _ | _ | _ <;>
    decide

/-- What holds of the kinds in the list holds of every kind. -/
theorem forall_of_all {p : Kind → Prop} (h : ∀ k ∈ all, p k) : ∀ k, p k :=
  fun k => h k k.mem_all

theorem ofTag?_tag : ∀ k : Kind, ofTag? k.tag = some k := forall_of_all (by decide)

end Kind

end Lexemes
