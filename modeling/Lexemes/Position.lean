namespace Lexemes

/-- A place in a text: the number of characters before it, and its line and column counted from one. -/
structure Position where
  offset : Nat
  line : Nat
  column : Nat
deriving DecidableEq, Repr

namespace Position

def start : Position := ⟨0, 1, 1⟩

/-- The place after one more character. A line feed opens the next line, any other character takes
one column. -/
def after (p : Position) (c : Char) : Position :=
  if c = '\n' then ⟨p.offset + 1, p.line + 1, 1⟩ else ⟨p.offset + 1, p.line, p.column + 1⟩

def afterAll (p : Position) (text : List Char) : Position :=
  text.foldl after p

@[simp] theorem afterAll_nil (p : Position) : p.afterAll [] = p := rfl

@[simp] theorem afterAll_cons (p : Position) (c : Char) (text : List Char) :
    p.afterAll (c :: text) = (p.after c).afterAll text := rfl

theorem afterAll_append (p : Position) (a b : List Char) :
    p.afterAll (a ++ b) = (p.afterAll a).afterAll b :=
  List.foldl_append

@[simp] theorem offset_after (p : Position) (c : Char) : (p.after c).offset = p.offset + 1 := by
  unfold after
  split <;> rfl

@[simp] theorem offset_afterAll (p : Position) (text : List Char) :
    (p.afterAll text).offset = p.offset + text.length := by
  induction text generalizing p with
  | nil => rfl
  | cons c text ih =>
    rw [afterAll_cons, ih, offset_after, List.length_cons]
    omega

end Position

end Lexemes
