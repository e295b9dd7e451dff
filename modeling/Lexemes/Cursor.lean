import Lexemes.Position

namespace Lexemes

/-- A place in a text, and the characters from there to the end. -/
structure Cursor where
  position : Position
  rest : List Char
deriving DecidableEq, Repr

namespace Cursor

def ofText (text : List Char) : Cursor := ⟨.start, text⟩

def offset (c : Cursor) : Nat := c.position.offset

def atEnd (c : Cursor) : Bool := c.rest.isEmpty

/-- The number of characters before the end of the text that the cursor moves in. -/
def limit (c : Cursor) : Nat := c.offset + c.rest.length

def advance (c : Cursor) (count : Nat) : Cursor :=
  ⟨c.position.afterAll (c.rest.take count), c.rest.drop count⟩

@[simp] theorem advance_zero (c : Cursor) : c.advance 0 = c := by
  simp [advance]

theorem offset_advance (c : Cursor) {count : Nat} (h : count ≤ c.rest.length) :
    (c.advance count).offset = c.offset + count := by
  simp [advance, offset, Nat.min_eq_left h]

theorem limit_advance (c : Cursor) {count : Nat} (h : count ≤ c.rest.length) :
    (c.advance count).limit = c.limit := by
  rw [limit, offset_advance c h, limit, advance, List.length_drop]
  omega

theorem advance_advance (c : Cursor) (m n : Nat) :
    (c.advance m).advance n = c.advance (m + n) := by
  simp [advance, ← Position.afterAll_append, List.take_add, List.drop_drop]

end Cursor

end Lexemes
