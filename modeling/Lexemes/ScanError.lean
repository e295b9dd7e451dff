import Lexemes.Number.Numeral
import Lexemes.Position

namespace Lexemes

/-- What can be wrong with a text: a character that starts no token, a run of digits and points that is no
number, or a character literal without an end. -/
inductive Fault
  | unknown (c : Char)
  | malformed (lexeme : String)
  | unterminated
deriving DecidableEq, Repr

/-- A fault and the place where the stretch of text begins. -/
structure ScanError where
  fault : Fault
  position : Position
deriving DecidableEq, Repr

namespace Fault

def message : Fault → List Char
  | unknown c => "Unknown token '".toList ++ [c, '\'']
  | malformed lexeme => "Malformed number '".toList ++ lexeme.toList ++ ['\'']
  | unterminated => "Unterminated character literal".toList

end Fault

namespace ScanError

def message (e : ScanError) : List Char :=
  e.fault.message ++ " at line ".toList ++ Numeral.ofNat e.position.line ++
    ", column ".toList ++ Numeral.ofNat e.position.column ++
    " (offset ".toList ++ Numeral.ofNat e.position.offset ++ [')']

end ScanError

end Lexemes
