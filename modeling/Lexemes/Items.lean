import Lexemes.Scanner

namespace Lexemes

/-- The items that are still to come from a scanner: none once a final one has been handed out. -/
structure Items where
  scanner : Scanner
  done : Bool

namespace Items

def ofScanner (s : Scanner) : Items := ⟨s, false⟩

def next (items : Items) : Option Item × Items :=
  if items.done then (none, items)
  else
    let (item, scanner) := items.scanner.next
    (some item, ⟨scanner, item.isFinal⟩)

def take : Nat → Items → List (Option Item) × Items
  | 0, items => ([], items)
  | n + 1, items =>
    let (first, rest) := items.next
    let (others, left) := rest.take n
    (first :: others, left)

end Items

end Lexemes
