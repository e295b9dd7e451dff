import Lexemes.Step.Run
import Mathlib.Data.List.TakeWhile

namespace Lexemes

/-- A cursor in a text: the text before it leads to its place, and the text after it lies ahead. -/
def Cursor.Within (source : List Char) (c : Cursor) : Prop :=
  ∃ before, before ++ c.rest = source ∧ c.position = Position.start.afterAll before

namespace Cursor

variable {source : List Char} {c : Cursor}

theorem within_ofText (source : List Char) : (ofText source).Within source :=
  ⟨[], rfl, rfl⟩

theorem Within.advance (h : c.Within source) (count : Nat) : (c.advance count).Within source := by
  obtain ⟨before, htext, hplace⟩ := h
  refine ⟨before ++ c.rest.take count, ?_, ?_⟩
  · simp only [Cursor.advance, List.append_assoc, List.take_append_drop, htext]
  · simp only [Cursor.advance, hplace, Position.afterAll_append]

theorem Within.rest_eq (h : c.Within source) : c.rest = source.drop c.position.offset := by
  obtain ⟨before, rfl, hplace⟩ := h
  simp [hplace, Position.start]

theorem Within.position_eq (h : c.Within source) :
    c.position = Position.start.afterAll (source.take c.position.offset) := by
  obtain ⟨before, rfl, hplace⟩ := h
  have hoffset : c.position.offset = before.length := by simp [hplace, Position.start]
  rw [hoffset, List.take_left]
  exact hplace

theorem Within.offset_add_length (h : c.Within source) :
    c.position.offset + c.rest.length = source.length := by
  obtain ⟨before, rfl, hplace⟩ := h
  simp [hplace, Position.start]

theorem Within.offset_le_length (h : c.Within source) : c.position.offset ≤ source.length :=
  Nat.le_of_add_right_le (Nat.le_of_eq h.offset_add_length)

theorem Within.atEnd_eq (h : c.Within source) :
    c.atEnd = decide (c.position.offset = source.length) := by
  have hlen := h.offset_add_length
  rw [Bool.eq_iff_iff, atEnd, List.isEmpty_iff, ← List.length_eq_zero_iff, decide_eq_true_iff]
  omega

end Cursor

namespace Step

variable {source : List Char}

theorem drop_length_takeWhile (p : Char → Bool) (text : List Char) :
    text.drop (text.takeWhile p).length = text.dropWhile p := by
  conv => lhs; arg 2; rw [← List.takeWhile_append_dropWhile (p := p) (l := text)]
  exact List.drop_left

theorem rest_afterBlanks (c : Cursor) : (afterBlanks c).rest = c.rest.dropWhile Text.isBlank :=
  drop_length_takeWhile Text.isBlank c.rest

theorem position_afterBlanks (c : Cursor) :
    (afterBlanks c).position = c.position.afterAll (c.rest.takeWhile Text.isBlank) := by
  rw [afterBlanks, Cursor.advance]
  have htake := List.prefix_iff_eq_take.mp (List.takeWhile_prefix (l := c.rest) Text.isBlank)
  rw [← htake]

theorem blanks_append_rest (c : Cursor) :
    c.rest.takeWhile Text.isBlank ++ (afterBlanks c).rest = c.rest := by
  rw [rest_afterBlanks, List.takeWhile_append_dropWhile]

theorem head_afterBlanks {c : Cursor} {first : Char} {rest : List Char}
    (h : (afterBlanks c).rest = first :: rest) : Text.isBlank first = false := by
  rw [rest_afterBlanks] at h
  have hhead := List.head?_dropWhile_not Text.isBlank c.rest
  rw [h] at hhead
  simpa using hhead

theorem within_afterBlanks {c : Cursor} (h : c.Within source) : (afterBlanks c).Within source :=
  h.advance _

/-- No blank follows the longest run of blanks, so passing over blanks again changes nothing. -/
theorem afterBlanks_afterBlanks (c : Cursor) : afterBlanks (afterBlanks c) = afterBlanks c := by
  have hnone : (afterBlanks c).rest.takeWhile Text.isBlank = [] := by
    cases h : (afterBlanks c).rest with
    | nil => rfl
    | cons first rest => rw [List.takeWhile_cons_of_neg (by simp [head_afterBlanks h])]
  rw [afterBlanks, hnone]
  exact Cursor.advance_zero _

end Step

end Lexemes
