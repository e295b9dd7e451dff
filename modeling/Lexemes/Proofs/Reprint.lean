import Lexemes.Proofs.Boundary
import Lexemes.Proofs.Places
import Lexemes.Proofs.Tiling

namespace Lexemes

/-- The same token at another place. -/
def Token.movedTo (t : Token) (place : Position) : Token := { t with position := place }

/-- A token other than the end of the input that a strict reading of some text finds. -/
def Token.Found (t : Token) : Prop :=
  t.isEnd = false ∧ ∃ source, .ok t ∈ (Scanner.ofText source .strict).drain.1

/-- Pieces to be written one after the other: tokens that have been found, behind gaps of blanks, of
which only the first one may be empty. -/
structure Printable (pieces : List Piece) : Prop where
  found : ∀ p ∈ pieces, p.token.Found
  blanks : ∀ p ∈ pieces, ∀ c ∈ p.gap, Text.isBlank c = true
  apart : ∀ p ∈ pieces.tail, p.gap ≠ []

namespace Scanner

variable {s : Scanner}

/-- Every item that is drained is what the grammar finds in some text that does not begin with a blank. -/
theorem outcome_of_mem_drain {item : Item} (h : item ∈ s.drain.1) :
    ∃ text, item = Item.ofOutcome item.place (Grammar.recognize s.mode text) ∧
      ∀ first ∈ text.head?, Text.isBlank first = false := by
  obtain ⟨n, rfl⟩ := exists_pulled_of_mem h
  refine ⟨(Step.afterBlanks (s.pulled n).cursor).rest, ?_, ?_⟩
  · rw [place_next, ← mode_pulled s n]
    exact item_next _
  · intro first hfirst
    obtain ⟨rest, hrest⟩ := List.head?_eq_some_iff.mp hfirst
    exact Step.head_afterBlanks hrest

/-- Every token that is drained was recognized at the start of some text. -/
theorem recognized_of_mem_drain {t : Token} (ht : .ok t ∈ s.drain.1) :
    ∃ text b, Grammar.recognize s.mode text = .ok b ∧ t = b.token t.position := by
  obtain ⟨text, hitem, -⟩ := outcome_of_mem_drain ht
  cases hb : Grammar.recognize s.mode text with
  | error fault =>
    rw [hb] at hitem
    cases hitem
  | ok b =>
    rw [hb] at hitem
    exact ⟨text, b, hb, Except.ok.inj hitem⟩

end Scanner

/-- The lexeme of a token that has been found is recognized again wherever nothing behind it continues
it. -/
theorem Token.Found.recognize {t : Token} (h : t.Found) :
    ∃ b, t = b.token t.position ∧ b.lexeme ≠ [] ∧
      ∀ more, Grammar.Parted more → Grammar.recognize .strict (b.lexeme ++ more) = .ok b := by
  obtain ⟨hend, source, hmem⟩ := h
  obtain ⟨text, b, hb, ht⟩ := Scanner.recognized_of_mem_drain hmem
  have hb : Grammar.recognize .strict text = .ok b := hb
  cases text with
  | nil =>
    cases hb
    rw [ht] at hend
    cases hend
  | cons c rest =>
    obtain ⟨tail, hlexeme⟩ := Grammar.lexeme_of_recognize hb
    have hne : b.lexeme ≠ [] := by
      rw [hlexeme]
      exact List.cons_ne_nil c tail
    have hagain : Grammar.recognize .strict b.lexeme = .ok b :=
      Grammar.recognize_lexeme hb (List.cons_ne_nil c rest)
    exact ⟨b, ht, hne, fun more hmore => Grammar.recognize_append hagain hne hmore⟩

namespace Printable

variable {pieces : List Piece} {p : Piece} {gap : List Char}

theorem head (h : Printable (p :: pieces)) : p.token.Found := h.found p List.mem_cons_self

theorem tail (h : Printable (p :: pieces)) : Printable pieces where
  found := fun q hq => h.found q (List.mem_cons_of_mem p hq)
  blanks := fun q hq => h.blanks q (List.mem_cons_of_mem p hq)
  apart := fun q hq => h.apart q (List.mem_of_mem_tail hq)

/-- What is written behind a piece begins with a blank, if anything is. -/
theorem parted (h : Printable (p :: pieces)) (hgap : ∀ c ∈ gap, Text.isBlank c = true) :
    Grammar.Parted (pieces.flatMap Piece.text ++ gap) := by
  cases pieces with
  | nil =>
    cases gap with
    | nil => exact Grammar.parted_nil
    | cons c gap => exact Grammar.parted_of_isBlank (hgap c List.mem_cons_self)
  | cons q pieces =>
    have hne : q.gap ≠ [] := h.apart q List.mem_cons_self
    have hblank : ∀ c ∈ q.gap, Text.isBlank c = true :=
      h.blanks q (List.mem_cons_of_mem p List.mem_cons_self)
    rw [List.flatMap_cons, Piece.text]
    cases hq : q.gap with
    | nil => exact absurd hq hne
    | cons c tail =>
      rw [hq] at hblank
      exact Grammar.parted_of_isBlank (hblank c List.mem_cons_self)

end Printable

/-- The tokens of some pieces at the places where their lexemes stand if the pieces are written from a
place on. -/
def placed (place : Position) : List Piece → List Token
  | [] => []
  | p :: pieces =>
    p.token.movedTo (place.afterAll p.gap) :: placed (place.afterAll p.text) pieces

theorem length_placed (place : Position) (pieces : List Piece) :
    (placed place pieces).length = pieces.length := by
  induction pieces generalizing place with
  | nil => rfl
  | cons p pieces ih => rw [placed, List.length_cons, List.length_cons, ih]

theorem placed_getElem? (place : Position) (before : List Piece) (p : Piece) (after : List Piece) :
    (placed place (before ++ p :: after))[before.length]? =
      some (p.token.movedTo (place.afterAll (before.flatMap Piece.text ++ p.gap))) := by
  induction before generalizing place with
  | nil => rfl
  | cons q before ih =>
    show (placed (place.afterAll q.text) (before ++ p :: after))[before.length]? = _
    rw [ih, List.flatMap_cons, List.append_assoc, Position.afterAll_append place]

namespace Scanner

variable {s : Scanner}

theorem drain_of_blanks {gap : List Char} (hrest : s.cursor.rest = gap)
    (hgap : ∀ c ∈ gap, Text.isBlank c = true) :
    s.drain.1 = [.ok (Token.endOfInput (s.position.afterAll gap))] := by
  have hblanks : Step.afterBlanks s.cursor = ⟨s.position.afterAll gap, []⟩ := by
    refine Step.afterBlanks_of_gap ?_ hgap ?_
    · rw [hrest, List.append_nil]
    · intro c rest h
      cases h
  have hitem : s.next.1 = .ok (Token.endOfInput (s.position.afterAll gap)) := by
    rw [next_of_nil (by rw [hblanks]), hblanks]
  have hfinal : s.next.1.isFinal = true := by
    rw [hitem]
    rfl
  rw [drain_of_final hfinal, hitem]

/-- A strict scanner before printed pieces drains to their tokens and the end of the input. -/
theorem drain_of_printable {pieces : List Piece} {gap : List Char} (hmode : s.mode = .strict)
    (hrest : s.cursor.rest = pieces.flatMap Piece.text ++ gap) (hpieces : Printable pieces)
    (hgap : ∀ c ∈ gap, Text.isBlank c = true) :
    s.drain.1 = (placed s.position pieces).map .ok ++
      [.ok (Token.endOfInput (s.position.afterAll (pieces.flatMap Piece.text ++ gap)))] := by
  induction pieces generalizing s with
  | nil => exact drain_of_blanks hrest hgap
  | cons p pieces ih =>
    obtain ⟨b, ht, hlexeme, hagain⟩ := hpieces.head.recognize
    have htext : p.text = p.gap ++ b.lexeme := by
      rw [Piece.text, ht]
      exact congrArg (p.gap ++ ·) String.toList_ofList
    have hb : Grammar.recognize s.mode (b.lexeme ++ (pieces.flatMap Piece.text ++ gap)) = .ok b := by
      rw [hmode]
      exact hagain _ (hpieces.parted hgap)
    have hne : b.lexeme ++ (pieces.flatMap Piece.text ++ gap) ≠ [] :=
      List.append_ne_nil_of_left_ne_nil hlexeme _
    have hsplit : s.cursor.rest = p.gap ++ (b.lexeme ++ (pieces.flatMap Piece.text ++ gap)) := by
      rw [hrest, List.flatMap_cons, htext, List.append_assoc, List.append_assoc]
    obtain ⟨hitem, hmore, hleft, hplace⟩ :=
      s.next_of_gap hsplit (hpieces.blanks p List.mem_cons_self) hne hb
    rw [List.drop_left] at hleft
    rw [← htext] at hplace
    have htoken : b.token (s.position.afterAll p.gap) =
        p.token.movedTo (s.position.afterAll p.gap) := by
      rw [ht]
      rfl
    rw [drain_of_more hmore, ih ((mode_next s).trans hmode) hleft hpieces.tail, hitem, htoken, hplace,
      placed, List.map_cons, List.cons_append, List.flatMap_cons, List.append_assoc,
      Position.afterAll_append s.position p.text]

end Scanner

/-- Tokens that strict readings have found, with their lexemes written one after the other and blanks
between them, are what a strict reading of that text finds: it has one token for each of them, of the
same kind, lexeme and value, at the exact place of its lexeme, and the end of the input behind them. -/
theorem tokens_of_printed (pieces : List Piece) (gap : List Char) (hpieces : Printable pieces)
    (hgap : ∀ c ∈ gap, Text.isBlank c = true) :
    ∃ tokens,
      (Scanner.ofText (pieces.flatMap Piece.text ++ gap) .strict).tokens.1 =
          .ok (tokens ++ [Token.endOfInput
            (Position.start.afterAll (pieces.flatMap Piece.text ++ gap))]) ∧
        tokens.length = pieces.length ∧
        ∀ before p after, pieces = before ++ p :: after →
          ∃ place, tokens[before.length]? = some (p.token.movedTo place) ∧
            place.offset = (before.flatMap Piece.text ++ p.gap).length ∧
            place.Exact (pieces.flatMap Piece.text ++ gap) := by
  have hdrain := Scanner.drain_of_printable (s := .ofText _ .strict) rfl rfl hpieces hgap
  refine ⟨placed .start pieces, ?_, length_placed _ _, ?_⟩
  · rw [Scanner.tokens_eq, hdrain]
    exact Item.collect_append (List.cons_ne_nil _ _) _
  · intro before p after hsplit
    refine ⟨Position.start.afterAll (before.flatMap Piece.text ++ p.gap), ?_, ?_, ?_⟩
    · rw [hsplit]
      exact placed_getElem? .start before p after
    · rw [Position.offset_afterAll]
      exact Nat.zero_add _
    · -- The place is that of a cursor behind what is written before the lexeme.
      have hwithin : Cursor.Within (pieces.flatMap Piece.text ++ gap)
          ⟨Position.start.afterAll (before.flatMap Piece.text ++ p.gap),
            p.token.lexeme.toList ++ (after.flatMap Piece.text ++ gap)⟩ := by
        refine ⟨before.flatMap Piece.text ++ p.gap, ?_, rfl⟩
        rw [hsplit, List.flatMap_append, List.flatMap_cons, Piece.text]
        simp only [List.append_assoc]
      exact hwithin.exact

theorem Scanner.mem_drain_of_next {s : Scanner} {item : Item} (h : s.next.1 = item) :
    item ∈ s.drain.1 := by
  have hhead : s.drain.1.head? = some item := by rw [head_drain, h]
  exact List.mem_of_mem_head? hhead

/-- A number that ends in a point, and on the next line a literal of a quote. -/
def numberAndQuote : List Piece := [
  ⟨[], ⟨.float, "12.", .float ⟨false, 0x4028000000000000, by decide⟩, ⟨0, 1, 1⟩⟩⟩,
  ⟨['\n'], ⟨.character, "'''", .char '\'', ⟨2, 1, 3⟩⟩⟩]

theorem printable_numberAndQuote : Printable numberAndQuote where
  found := by
    intro p hp
    rcases List.mem_pair.mp hp with rfl | rfl
    · refine ⟨rfl, "12.".toList, Scanner.mem_drain_of_next ?_⟩
      decide +kernel
    · refine ⟨rfl, "  '''x".toList, Scanner.mem_drain_of_next ?_⟩
      decide +kernel
  blanks := by
    intro p hp c hc
    rcases List.mem_pair.mp hp with rfl | rfl
    · cases hc
    · rw [List.mem_singleton.mp hc]
      rfl
  apart := by
    intro p hp
    rw [List.mem_singleton.mp hp]
    exact List.cons_ne_nil _ _

theorem tokens_of_printed_numberAndQuote :
    Printable numberAndQuote ∧ (∀ c ∈ ['\t'], Text.isBlank c = true) ∧
      ∃ tokens,
        (Scanner.ofText (numberAndQuote.flatMap Piece.text ++ ['\t']) .strict).tokens.1 =
            .ok (tokens ++ [Token.endOfInput ⟨8, 2, 5⟩]) ∧
          tokens.length = 2 ∧
          ∀ before p after, numberAndQuote = before ++ p :: after →
            ∃ place, tokens[before.length]? = some (p.token.movedTo place) ∧
              place.offset = (before.flatMap Piece.text ++ p.gap).length ∧
              place.Exact (numberAndQuote.flatMap Piece.text ++ ['\t']) := by
  have hgap : ∀ c ∈ ['\t'], Text.isBlank c = true := by
    intro c hc
    rw [List.mem_singleton.mp hc]
    rfl
  exact ⟨printable_numberAndQuote, hgap,
    tokens_of_printed numberAndQuote ['\t'] printable_numberAndQuote hgap⟩

end Lexemes
