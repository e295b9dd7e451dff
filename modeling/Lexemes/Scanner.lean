import Lexemes.Step.Run

namespace Lexemes

abbrev Item : Type := Except ScanError Token

/-- A text that is cut into tokens one by one: the whole text, the mode, the place where the latest
token or error began, the cursor, and the latest token. -/
structure Scanner where
  source : List Char
  mode : Mode
  start : Cursor
  cursor : Cursor
  last : Option Token

/-- Whether no other item follows: the end of the input, or an error. -/
def Item.isFinal : Item → Bool
  | .ok token => token.isEnd
  | .error _ => true

namespace Scanner

def ofText (source : List Char) (mode : Mode) : Scanner :=
  ⟨source, mode, .ofText source, .ofText source, none⟩

def reset (s : Scanner) : Scanner := ofText s.source s.mode

def position (s : Scanner) : Position := s.cursor.position

def atEnd (s : Scanner) : Bool := s.cursor.atEnd

/-- The span that the next step sets out with. -/
def span (s : Scanner) : Span := .passing s.start s.cursor 0

/-- Reads one token. After a token the cursor stands behind it. After an error it stands where the
faulty stretch of text begins, and the last token stays. There is no answer if the step is refused a
look at the text, or if one of its runs is given up. -/
def next? (s : Scanner) : Option (Item × Scanner) :=
  match Step.exec (Step.scan s.mode) s.span with
  | (.ok token, span) =>
    some (.ok token,
      { s with start := span.start, cursor := span.cursor, last := some token })
  | (.error (.fault fault), span) =>
    some (.error ⟨fault, span.start.position⟩,
      { s with start := span.start, cursor := span.start })
  | (.error .outOfText, _) | (.error .spent, _) => none

/-- The answer and the scanner after it, when the given beginning of the text, or fault of it, has been
found at a cursor. -/
def answer (s : Scanner) (start : Cursor) : Except Fault Grammar.Beginning → Item × Scanner
  | .ok b =>
    (.ok (b.token start.position),
      { s with
        start := start
        cursor := start.advance b.lexeme.length
        last := some (b.token start.position) })
  | .error fault =>
    (.error ⟨fault, start.position⟩, { s with start := start, cursor := start })

theorem next?_eq (s : Scanner) :
    s.next? =
      some (s.answer (Step.afterBlanks s.cursor)
        (Grammar.recognize s.mode (Step.afterBlanks s.cursor).rest)) := by
  have h := Step.tokenAhead_finds s.mode (Step.afterBlanks s.cursor)
  rw [next?, span, Step.exec_scan]
  cases hr : Grammar.recognize s.mode (Step.afterBlanks s.cursor).rest with
  | ok b =>
    rw [hr] at h
    rw [show Step.exec _ _ = _ from h]
    rfl
  | error fault =>
    rw [hr] at h
    obtain ⟨n, h⟩ := h
    rw [h]
    rfl

theorem isSome_next? (s : Scanner) : s.next?.isSome = true := by
  rw [next?_eq]
  rfl

def next (s : Scanner) : Item × Scanner := s.next?.get s.isSome_next?

/-- A scanner answers with what its text begins with after the blanks. -/
theorem next_eq (s : Scanner) :
    s.next =
      s.answer (Step.afterBlanks s.cursor)
        (Grammar.recognize s.mode (Step.afterBlanks s.cursor).rest) :=
  Option.some.inj ((Option.some_get _).trans s.next?_eq)

theorem rest_lt_of_next {s t : Scanner} {item : Item} (h : s.next = (item, t))
    (hf : item.isFinal = false) : t.cursor.rest.length < s.cursor.rest.length := by
  rw [next_eq] at h
  have hle : (Step.afterBlanks s.cursor).rest.length ≤ s.cursor.rest.length := by
    simp [Step.afterBlanks, Cursor.advance]
  cases hr : (Step.afterBlanks s.cursor).rest with
  | nil =>
    rw [hr] at h
    cases h
    cases hf
  | cons c rest =>
    rw [hr] at h
    cases hb : Grammar.recognize s.mode (c :: rest) with
    | error fault =>
      rw [hb] at h
      cases h
      cases hf
    | ok b =>
      rw [hb] at h
      cases h
      obtain ⟨tail, htail⟩ := Grammar.lexeme_of_recognize hb
      rw [hr, List.length_cons] at hle
      simp only [Cursor.advance, hr, htail, List.length_cons, List.drop_succ_cons,
        List.length_drop]
      omega

/-- Reads tokens up to the end of the input or the first error. -/
def drain (s : Scanner) : List Item × Scanner :=
  match _ : s.next with
  | (item, t) =>
    if _ : item.isFinal then ([item], t)
    else
      let (items, u) := t.drain
      (item :: items, u)
termination_by s.cursor.rest.length
decreasing_by exact rest_lt_of_next ‹_› (eq_false_of_ne_true ‹_›)

/-- Reads the tokens up to the end of the input, or fails with the first error. -/
def tokens (s : Scanner) : Except ScanError (List Token) × Scanner :=
  let (items, t) := s.drain
  (items.mapM id, t)

end Scanner

end Lexemes
