import Lexemes.Items

namespace Lexemes

/-- A scanner in use, and the scanners put aside, the latest first. -/
structure Session where
  scanner : Scanner
  saved : List Scanner

namespace Session

inductive Order
  | next
  | tokens
  | items (count : Nat)
  | reset
  | last
  | source
  | mode
  | save
  | restore
deriving DecidableEq, Repr

inductive Answer
  | item (item : Item)
  | tokens (result : Except ScanError (List Token))
  | items (items : List (Option Item))
  | done
  | last (token? : Option Token)
  | source (text : List Char)
  | mode (mode : Mode)
  | saved (count : Nat)
  | restored (found : Bool)

def ofText (source : List Char) (mode : Mode) : Session := ⟨.ofText source mode, []⟩

def perform (s : Session) : Order → Answer × Session
  | .next =>
    let (item, t) := s.scanner.next
    (.item item, { s with scanner := t })
  | .tokens =>
    let (result, t) := s.scanner.tokens
    (.tokens result, { s with scanner := t })
  | .items count =>
    let (items, left) := (Items.ofScanner s.scanner).take count
    (.items items, { s with scanner := left.scanner })
  | .reset => (.done, { s with scanner := s.scanner.reset })
  | .last => (.last s.scanner.last, s)
  | .source => (.source s.scanner.source, s)
  | .mode => (.mode s.scanner.mode, s)
  | .save => (.saved (s.saved.length + 1), { s with saved := s.scanner :: s.saved })
  | .restore =>
    match s.saved with
    | [] => (.restored false, s)
    | t :: saved => (.restored true, ⟨t, saved⟩)

/-- Carries out orders one after the other: the answers, each with the session after it. -/
def run (s : Session) : List Order → List (Answer × Session)
  | [] => []
  | order :: orders =>
    let (answer, t) := s.perform order
    (answer, t) :: t.run orders

end Session

end Lexemes
