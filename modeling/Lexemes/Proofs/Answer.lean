import Lexemes.Scanner
import Lexemes.Proofs.Forms
import Lexemes.Proofs.Within

namespace Lexemes

namespace Item

def place : Item → Position
  | .ok token => token.position
  | .error e => e.position

/-- The text that an item takes. An error takes none. -/
def text : Item → List Char
  | .ok token => token.lexeme.toList
  | .error _ => []

def after (item : Item) : Position := item.place.afterAll item.text

/-- What is found at the start of a text, as the item at a place. -/
def ofOutcome (p : Position) : Except Fault Grammar.Beginning → Item
  | .ok b => .ok (b.token p)
  | .error fault => .error ⟨fault, p⟩

@[simp] theorem place_ofOutcome (p : Position) (outcome : Except Fault Grammar.Beginning) :
    (ofOutcome p outcome).place = p := by
  cases outcome <;> rfl

end Item

namespace Grammar

variable {mode : Mode} {text : List Char} {b : Beginning}

theorem lexeme_begins (h : recognize mode text = .ok b) : b.lexeme <+: text := by
  have hreads := reads_recognize mode text
  rw [h] at hreads
  cases hreads with
  | endOfInput => exact List.prefix_rfl
  | punctuation hmark rest => exact ⟨rest, rfl⟩
  | word hc hfound => exact hfound.begins
  | number hc hfound hkind hvalue => exact hfound.begins
  | character hclosed => exact List.take_prefix _ _

/-- Only the end of a text begins with the end of the input. -/
theorem kind_ne_endOfInput {c : Char} {rest : List Char} (h : recognize mode (c :: rest) = .ok b) :
    b.kind ≠ .endOfInput := by
  obtain ⟨tail, htail⟩ := lexeme_of_recognize h
  obtain ⟨lexeme, kind, payload⟩ := b
  rintro rfl
  cases formed_of_recognize h
  cases htail

end Grammar

namespace Scanner

variable {s : Scanner} {source : List Char}

/-- The answer is what the grammar finds behind the blanks. -/
theorem item_next (s : Scanner) :
    s.next.1 = Item.ofOutcome (Step.afterBlanks s.cursor).position
      (Grammar.recognize s.mode (Step.afterBlanks s.cursor).rest) := by
  rw [next_eq]
  cases Grammar.recognize s.mode (Step.afterBlanks s.cursor).rest <;> rfl

/-- An answer moves the cursor from behind the blanks over the text of its item, and keeps its token. -/
theorem state_next (s : Scanner) :
    s.next.2 =
      { s with
        start := Step.afterBlanks s.cursor
        cursor := (Step.afterBlanks s.cursor).advance s.next.1.text.length
        last := s.next.1.toOption.or s.last } := by
  rw [next_eq]
  cases Grammar.recognize s.mode (Step.afterBlanks s.cursor).rest with
  | ok b =>
    have hlength : (String.ofList b.lexeme).toList.length = b.lexeme.length := by
      rw [String.toList_ofList]
    show Scanner.mk _ _ _ ((Step.afterBlanks s.cursor).advance b.lexeme.length) _ =
      Scanner.mk _ _ _ ((Step.afterBlanks s.cursor).advance (String.ofList b.lexeme).toList.length) _
    rw [hlength]
    rfl
  | error fault =>
    show Scanner.mk _ _ _ (Step.afterBlanks s.cursor) _ =
      Scanner.mk _ _ _ ((Step.afterBlanks s.cursor).advance 0) _
    rw [Cursor.advance_zero]
    rfl

@[simp] theorem source_next (s : Scanner) : s.next.2.source = s.source := by rw [state_next]

@[simp] theorem mode_next (s : Scanner) : s.next.2.mode = s.mode := by rw [state_next]

theorem last_next (s : Scanner) : s.next.2.last = s.next.1.toOption.or s.last := by rw [state_next]

theorem cursor_next (s : Scanner) :
    s.next.2.cursor = (Step.afterBlanks s.cursor).advance s.next.1.text.length := by rw [state_next]

theorem place_next (s : Scanner) : s.next.1.place = (Step.afterBlanks s.cursor).position := by
  rw [item_next, Item.place_ofOutcome]

theorem text_begins (s : Scanner) : s.next.1.text <+: (Step.afterBlanks s.cursor).rest := by
  rw [item_next]
  cases h : Grammar.recognize s.mode (Step.afterBlanks s.cursor).rest with
  | ok b =>
    show (String.ofList b.lexeme).toList <+: _
    rw [String.toList_ofList]
    exact Grammar.lexeme_begins h
  | error fault => exact List.nil_prefix

/-- The blanks, the text of the item and the text after it are the text before the answer. -/
theorem blanks_append_text_append_rest (s : Scanner) :
    s.cursor.rest.takeWhile Text.isBlank ++ (s.next.1.text ++ s.next.2.cursor.rest) =
      s.cursor.rest := by
  have htext := List.prefix_iff_eq_append.mp s.text_begins
  rw [cursor_next, Cursor.advance, htext, Step.blanks_append_rest]

theorem position_next (s : Scanner) : s.next.2.position = s.next.1.after := by
  have htake := List.prefix_iff_eq_take.mp s.text_begins
  rw [position, cursor_next, Cursor.advance, ← htake, Item.after, place_next]

theorem within_next (h : s.cursor.Within source) : s.next.2.cursor.Within source := by
  rw [cursor_next]
  exact (Step.within_afterBlanks h).advance _

theorem next_of_nil (h : (Step.afterBlanks s.cursor).rest = []) :
    s.next.1 = .ok (Token.endOfInput (Step.afterBlanks s.cursor).position) := by
  rw [item_next, h]
  rfl

/-- With text ahead a token of the answer begins with the first character of that text, and is not
the end of the input. -/
theorem token_of_cons {first : Char} {rest : List Char} {t : Token}
    (h : (Step.afterBlanks s.cursor).rest = first :: rest) (ht : s.next.1 = .ok t) :
    t.isEnd = false ∧ ∃ tail, t.lexeme.toList = first :: tail := by
  rw [item_next, h] at ht
  cases hr : Grammar.recognize s.mode (first :: rest) with
  | ok b =>
    rw [hr] at ht
    obtain rfl : b.token _ = t := Except.ok.inj ht
    obtain ⟨tail, htail⟩ := Grammar.lexeme_of_recognize hr
    refine ⟨beq_eq_false_iff_ne.mpr (Grammar.kind_ne_endOfInput hr), tail, ?_⟩
    exact String.toList_ofList.trans htail
  | error fault =>
    rw [hr] at ht
    cases ht

/-- Errors and the end of the input take no text, and every other token has a first character. -/
theorem isFinal_next_iff (s : Scanner) : s.next.1.isFinal = true ↔ s.next.1.text = [] := by
  cases ht : s.next.1 with
  | error e => exact iff_of_true rfl rfl
  | ok t =>
    cases h : (Step.afterBlanks s.cursor).rest with
    | nil =>
      obtain rfl : Token.endOfInput _ = t := Except.ok.inj ((next_of_nil h).symm.trans ht)
      exact iff_of_true rfl rfl
    | cons first rest =>
      obtain ⟨hend, tail, htail⟩ := token_of_cons h ht
      have hnil : Item.text (.ok t) ≠ [] := by
        show t.lexeme.toList ≠ []
        rw [htail]
        exact List.cons_ne_nil first tail
      exact iff_of_false (by simp [Item.isFinal, hend]) hnil

theorem answer_answer (s : Scanner) (start : Cursor) (outcome : Except Fault Grammar.Beginning) :
    (s.answer start outcome).2.answer start outcome = s.answer start outcome := by
  cases outcome <;> rfl

/-- A final item leaves the scanner so that it answers the same again and stays as it is. -/
theorem next_next_of_final (h : s.next.1.isFinal = true) : s.next.2.next = s.next := by
  have hblanks : Step.afterBlanks s.next.2.cursor = Step.afterBlanks s.cursor := by
    rw [cursor_next, (isFinal_next_iff s).mp h, List.length_nil, Cursor.advance_zero,
      Step.afterBlanks_afterBlanks]
  have hanswer := s.answer_answer (Step.afterBlanks s.cursor)
    (Grammar.recognize s.mode (Step.afterBlanks s.cursor).rest)
  rw [← next_eq] at hanswer
  rw [next_eq s.next.2, hblanks, mode_next]
  exact hanswer

end Scanner

end Lexemes
