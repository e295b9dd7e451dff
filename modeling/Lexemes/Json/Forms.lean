import Lexemes.Grammar
import Lexemes.Json.Text
import Lexemes.Token

namespace Lexemes

def Kind.json (k : Kind) : List Char := Json.string k.tag.toList

def Payload.json : Payload → List Char
  | .text content => Json.object [("Text", Json.string content.toList)]
  | .char content => Json.object [("Char", Json.string [content])]
  | .integer value => Json.object [("Integer", Numeral.ofInt value.toInt)]
  | .float value => Json.object [("Float", Json.double value)]

/-- A token in JSON: an object with the three numbers of its place after the token proper. -/
def Token.json (t : Token) : List Char :=
  Json.object [
    ("kind", t.kind.json),
    ("lexeme", Json.string t.lexeme.toList),
    ("value", t.payload.json),
    ("offset", Numeral.ofNat t.position.offset),
    ("line", Numeral.ofNat t.position.line),
    ("column", Numeral.ofNat t.position.column)]

/-- A mode in JSON: an object that says whether character literals may lack their closing quote. -/
def Mode.json (m : Mode) : List Char :=
  Json.object [("lenient_char_literals", Json.bool (m == .lenient))]

end Lexemes
