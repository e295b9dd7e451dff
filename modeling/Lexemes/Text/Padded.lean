namespace Lexemes.Text

inductive Alignment
  | left
  | right
  | center
deriving DecidableEq, Repr

/-- Fills a text up to a width. In the centre an odd one out goes to the right. -/
def fill (filler : Char) (alignment : Alignment) (width : Nat) (text : List Char) : List Char :=
  let missing := width - text.length
  match alignment with
  | .left => text ++ List.replicate missing filler
  | .right => List.replicate missing filler ++ text
  | .center =>
    List.replicate (missing / 2) filler ++ text ++ List.replicate (missing - missing / 2) filler

/-- Cuts a text to a largest length, if there is one, and fills it up to a width. -/
def pad (filler : Char) (alignment : Alignment) (width : Nat) (longest? : Option Nat)
    (text : List Char) : List Char :=
  fill filler alignment width <|
    match longest? with
    | some longest => text.take longest
    | none => text

theorem length_fill (filler : Char) (alignment : Alignment) (width : Nat) (text : List Char) :
    (fill filler alignment width text).length = max width text.length := by
  cases alignment <;> simp [fill] <;> omega

end Lexemes.Text
