import Lexemes.Proofs.Answer

namespace Lexemes

namespace Grammar

/-- A text that continues no token: it is empty, or its first character belongs neither to words nor
to numbers. -/
def Parted (text : List Char) : Prop :=
  ∀ c rest, text = c :: rest → ¬(Letter c ∨ Digit c ∨ c = '_' ∨ c = '.')

variable {text more : List Char} {b : Beginning}

theorem Parted.isWordPart (h : Parted more) {c : Char} {rest : List Char} (hc : more = c :: rest) :
    isWordPart c = false := by
  apply eq_false_of_ne_true
  intro hpart
  apply h c rest hc
  rcases (isWordPart_iff c).mp hpart with hletter | hdigit | hunderscore
  · exact Or.inl hletter
  · exact Or.inr (Or.inl hdigit)
  · exact Or.inr (Or.inr (Or.inl hunderscore))

theorem Parted.isNumberPart (h : Parted more) {c : Char} {rest : List Char} (hc : more = c :: rest) :
    isNumberPart c = false := by
  apply eq_false_of_ne_true
  intro hpart
  apply h c rest hc
  rcases (isNumberPart_iff c).mp hpart with hdigit | hpoint
  · exact Or.inr (Or.inl hdigit)
  · exact Or.inr (Or.inr (Or.inr hpoint))

theorem parted_nil : Parted [] := by
  intro c rest h
  cases h

theorem parted_of_isBlank {c : Char} {rest : List Char} (hc : Text.isBlank c = true) :
    Parted (c :: rest) := by
  intro d tail h
  obtain ⟨rfl, -⟩ := List.cons.inj h
  rcases (isBlank_iff c).mp hc with rfl | rfl | rfl | rfl | rfl | rfl <;> decide

/-- No token begins with a blank. -/
theorem isBlank_of_recognize {mode : Mode} {c : Char} {rest : List Char}
    (h : recognize mode (c :: rest) = .ok b) : Text.isBlank c = false := by
  apply eq_false_of_ne_true
  intro hc
  rcases (isBlank_iff c).mp hc with rfl | rfl | rfl | rfl | rfl | rfl <;> cases h

/-- A run that ends before the end of a text, or that the next text does not continue, is not made
longer by that text. -/
theorem takeWhile_append_of_stop {p : Char → Bool}
    (hstop : ∀ c rest, more = c :: rest → p c = false) :
    (text ++ more).takeWhile p = text.takeWhile p := by
  have hmore : more.takeWhile p = [] := by
    cases more with
    | nil => rfl
    | cons c rest =>
      have hc : p c = false := hstop c rest rfl
      exact List.takeWhile_cons_of_neg (by simp [hc])
  rw [List.takeWhile_append, hmore, List.append_nil]
  split
  next hall =>
    have hbegins : text.takeWhile p <+: text := List.takeWhile_prefix p
    exact (hbegins.eq_of_length hall).symm
  next => rfl

theorem quote_of_closed {c : Char} {rest : List Char} (h : Closed .strict ('\'' :: c :: rest)) :
    ∃ tail, rest = '\'' :: tail := by
  cases rest with
  | nil => cases h
  | cons close tail =>
    have hclose : close = '\'' := Option.some.inj h
    exact ⟨tail, by rw [hclose]⟩

/-- What a text begins with does not depend on a text behind it that continues no token. -/
theorem recognize_append (h : recognize .strict text = .ok b) (hne : text ≠ [])
    (hmore : Parted more) : recognize .strict (text ++ more) = .ok b := by
  have hreads := reads_recognize .strict text
  rw [h] at hreads
  cases hreads with
  | endOfInput => exact absurd rfl hne
  | punctuation hmark rest => exact recognize_mark hmark _
  | @word c rest found hc hfound =>
    have hletter : c.isAlpha = true := (isAlpha_iff_letter c).mpr hc
    have hrun : (rest ++ more).takeWhile isWordPart = rest.takeWhile isWordPart :=
      takeWhile_append_of_stop fun d tail hd => hmore.isWordPart hd
    rw [List.cons_append, recognize_letter hletter, hrun, ← recognize_letter hletter]
    exact h
  | @number c rest found kind payload hc hfound hkind hvalue =>
    have hstart : isNumberStart c = true := (isNumberStart_iff c).mpr hc
    have hrun : (rest ++ more).takeWhile isNumberPart = rest.takeWhile isNumberPart :=
      takeWhile_append_of_stop fun d tail hd => hmore.isNumberPart hd
    rw [List.cons_append, recognize_numberStart hstart, hrun, ← recognize_numberStart hstart]
    exact h
  | @character c rest hclosed =>
    obtain ⟨tail, rfl⟩ := quote_of_closed hclosed
    have hlonger : Closed .strict ('\'' :: c :: '\'' :: (tail ++ more)) := rfl
    exact quoted_of_closed hlonger

/-- A lexeme by itself begins with the token that it was read for. -/
theorem recognize_lexeme (h : recognize .strict text = .ok b) (hne : text ≠ []) :
    recognize .strict b.lexeme = .ok b := by
  have hreads := reads_recognize .strict text
  rw [h] at hreads
  cases hreads with
  | endOfInput => exact absurd rfl hne
  | punctuation hmark rest => exact recognize_mark hmark _
  | word hc hfound => exact recognize_word hfound.mem
  | number hc hfound hkind hvalue =>
    show recognize .strict _ = _
    rw [recognize_run hfound.mem, numberRun, hvalue]
  | @character c rest hclosed =>
    obtain ⟨tail, rfl⟩ := quote_of_closed hclosed
    have hcut : Closed .strict ['\'', c, '\''] := rfl
    exact quoted_of_closed hcut

end Grammar

namespace Step

/-- Passing over blanks may begin with any of the blanks that come next. -/
theorem afterBlanks_of_blanks {c : Cursor} {gap text : List Char} (hrest : c.rest = gap ++ text)
    (hgap : ∀ d ∈ gap, Text.isBlank d = true) :
    afterBlanks c = afterBlanks ⟨c.position.afterAll gap, text⟩ := by
  have hrun : (c.rest.takeWhile Text.isBlank).length =
      gap.length + (text.takeWhile Text.isBlank).length := by
    rw [hrest, List.takeWhile_append_of_pos hgap, List.length_append]
  have hgone : c.advance gap.length = ⟨c.position.afterAll gap, text⟩ := by
    rw [Cursor.advance, hrest, List.take_left, List.drop_left]
  rw [afterBlanks, hrun, ← Cursor.advance_advance, hgone]
  rfl

/-- Blanks in front of a text that begins with no blank are all that is passed over. -/
theorem afterBlanks_of_gap {c : Cursor} {gap text : List Char} (hrest : c.rest = gap ++ text)
    (hgap : ∀ d ∈ gap, Text.isBlank d = true)
    (htext : ∀ d rest, text = d :: rest → Text.isBlank d = false) :
    afterBlanks c = ⟨c.position.afterAll gap, text⟩ := by
  have hnone : text.takeWhile Text.isBlank = [] := by
    cases text with
    | nil => rfl
    | cons d rest => rw [List.takeWhile_cons_of_neg (by simp [htext d rest rfl])]
  rw [afterBlanks_of_blanks hrest hgap, afterBlanks, hnone]
  exact Cursor.advance_zero _

end Step

namespace Scanner

variable {s : Scanner}

/-- An answer that is not final comes from a token behind a gap of blanks. -/
theorem exists_gap_of_more (h : s.next.1.isFinal = false) :
    ∃ gap text b, s.cursor.rest = gap ++ text ∧ (∀ c ∈ gap, Text.isBlank c = true) ∧ text ≠ [] ∧
      Grammar.recognize s.mode text = .ok b := by
  have hsplit : s.cursor.rest.takeWhile Text.isBlank ++ (Step.afterBlanks s.cursor).rest =
      s.cursor.rest := Step.blanks_append_rest s.cursor
  have hne : (Step.afterBlanks s.cursor).rest ≠ [] := by
    intro hnil
    rw [next_of_nil hnil] at h
    cases h
  cases hb : Grammar.recognize s.mode (Step.afterBlanks s.cursor).rest with
  | error fault =>
    rw [item_next, hb] at h
    cases h
  | ok b => exact ⟨_, _, b, hsplit.symm, fun c hc => List.mem_takeWhile_imp hc, hne, hb⟩

/-- An answer of a scanner that stands before a gap of blanks and a token behind it. -/
theorem next_of_gap {gap text : List Char} {b : Grammar.Beginning}
    (hrest : s.cursor.rest = gap ++ text) (hgap : ∀ c ∈ gap, Text.isBlank c = true)
    (hne : text ≠ []) (hb : Grammar.recognize s.mode text = .ok b) :
    s.next.1 = .ok (b.token (s.position.afterAll gap)) ∧ s.next.1.isFinal = false ∧
      s.next.2.cursor.rest = text.drop b.lexeme.length ∧
      s.next.2.position = s.position.afterAll (gap ++ b.lexeme) := by
  have htext : ∀ c rest, text = c :: rest → Text.isBlank c = false := by
    rintro c rest rfl
    exact Grammar.isBlank_of_recognize hb
  have hblanks : Step.afterBlanks s.cursor = ⟨s.position.afterAll gap, text⟩ :=
    Step.afterBlanks_of_gap hrest hgap htext
  have hitem : s.next.1 = .ok (b.token (s.position.afterAll gap)) := by
    rw [item_next, hblanks]
    show Item.ofOutcome _ (Grammar.recognize s.mode text) = _
    rw [hb]
    rfl
  have hlexeme : s.next.1.text = b.lexeme := by
    rw [hitem]
    exact String.toList_ofList
  refine ⟨hitem, ?_, ?_, ?_⟩
  · cases text with
    | nil => exact absurd rfl hne
    | cons c rest =>
      have hrest : (Step.afterBlanks s.cursor).rest = c :: rest := by rw [hblanks]
      rw [hitem]
      exact (token_of_cons hrest hitem).1
  · rw [cursor_next, hblanks, hlexeme]
    rfl
  · rw [position_next, Item.after, hlexeme, Position.afterAll_append, place_next, hblanks]

end Scanner

end Lexemes
