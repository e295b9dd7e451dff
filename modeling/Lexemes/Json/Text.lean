import Lexemes.Number.Layout
import Lexemes.Number.Numeral

namespace Lexemes.Json

def controlLetter? (c : Char) : Option Char :=
  if c = '\x08' then some 'b'
  else if c = '\t' then some 't'
  else if c = '\n' then some 'n'
  else if c = '\x0c' then some 'f'
  else if c = '\r' then some 'r'
  else none

/-- How one character is written in a string: quotes and backslashes after a backslash, control
characters by their letter or their number, and all others as they are. -/
def escape (c : Char) : List Char :=
  if c = '"' ∨ c = '\\' then ['\\', c]
  else
    match controlLetter? c with
    | some letter => ['\\', letter]
    | none =>
      if c.toNat < 0x20 then
        ['\\', 'u', '0', '0', (c.toNat / 16).digitChar, (c.toNat % 16).digitChar]
      else [c]

def string (text : List Char) : List Char :=
  '"' :: text.flatMap escape ++ ['"']

def bool (b : Bool) : List Char :=
  if b then "true".toList else "false".toList

/-- A double, which is null if it is not finite. -/
def double (x : Binary64) : List Char :=
  if x.isFinite then Layout.json.finiteText x else "null".toList

/-- A member of an object: its key and its value, which is a JSON text. -/
def member (key : String) (value : List Char) : List Char :=
  string key.toList ++ ':' :: value

def object (members : List (String × List Char)) : List Char :=
  '{' :: [','].intercalate (members.map fun (key, value) => member key value) ++ ['}']

end Lexemes.Json
