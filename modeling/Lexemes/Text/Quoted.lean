import Lexemes.Text.Hidden

/-!
Quoted text: between double quotes, with every character that would not show, or would end the text,
written as an escape. Which characters do not show is a matter of the version of Unicode, so it is left
open in most of what follows.
-/

namespace Lexemes.Text.Quoted

/-- How one character is written between quotes if a given class of code points is taken not to show. Six
characters have a letter of their own, whether they show or not. -/
def escapeHiding (hidden : Nat → Bool) (c : Char) : List Char :=
  if c = '"' then ['\\', '"']
  else if c = '\\' then ['\\', '\\']
  else if c = '\x00' then ['\\', '0']
  else if c = '\t' then ['\\', 't']
  else if c = '\n' then ['\\', 'n']
  else if c = '\r' then ['\\', 'r']
  else if hidden c.toNat then '\\' :: 'u' :: '{' :: Nat.toDigits 16 c.toNat ++ ['}']
  else [c]

def quoteHiding (hidden : Nat → Bool) (text : List Char) : List Char :=
  '"' :: text.flatMap (escapeHiding hidden) ++ ['"']

def quote (text : List Char) : List Char := quoteHiding isHidden text

end Lexemes.Text.Quoted
