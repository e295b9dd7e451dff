import Lexemes.Proofs.Pulls

namespace Lexemes

/-- A gap and the token after it. -/
structure Piece where
  gap : List Char
  token : Token

namespace Piece

def text (p : Piece) : List Char := p.gap ++ p.token.lexeme.toList

/-- A piece in a text: blanks, and a token of at least one character, the first of which is no blank. -/
structure Solid (p : Piece) : Prop where
  blanks : ∀ c ∈ p.gap, Grammar.Blank c
  lexeme : ∃ c tail, p.token.lexeme.toList = c :: tail ∧ ¬Grammar.Blank c
  kind : p.token.kind ≠ .endOfInput

end Piece

/-- How the items of a scanner cut the text ahead of it: into pieces, a last gap and a rest. -/
structure Tiling (s : Scanner) (pieces : List Piece) (gap rest : List Char) (final : Item) : Prop where
  items : s.drain.1 = pieces.map (fun p => .ok p.token) ++ [final]
  text : s.cursor.rest = pieces.flatMap Piece.text ++ gap ++ rest
  solid : ∀ p ∈ pieces, p.Solid
  blanks : ∀ c ∈ gap, Grammar.Blank c
  /-- A token begins behind the pieces before it and its own gap. -/
  offset : ∀ before p after, pieces = before ++ p :: after →
    p.token.position.offset =
      s.position.offset + (before.flatMap Piece.text).length + p.gap.length
  /-- The request that is answered with a token leaves the cursor behind its lexeme. -/
  cursor : ∀ before p after, pieces = before ++ p :: after →
    (s.pulled (before.length + 1)).position.offset =
      p.token.position.offset + p.token.lexeme.length
  endOfInput : ∀ t, final = .ok t →
    rest = [] ∧ t.kind = .endOfInput ∧ t.lexeme = "" ∧
      t.position.offset = s.position.offset + s.cursor.rest.length
  error : ∀ e, final = .error e →
    (∃ c tail, rest = c :: tail ∧ ¬Grammar.Blank c) ∧
      e.position.offset = s.position.offset + (pieces.flatMap Piece.text ++ gap).length ∧
      s.drain.2.position = e.position

namespace Tiling

open Scanner

variable {s : Scanner}

theorem offset_place_next (s : Scanner) :
    s.next.1.place.offset = s.position.offset + (s.cursor.rest.takeWhile Text.isBlank).length := by
  rw [place_next, Step.position_afterBlanks, Position.offset_afterAll]
  rfl

theorem offset_next (s : Scanner) :
    s.next.2.position.offset = s.next.1.place.offset + s.next.1.text.length := by
  rw [position_next, Item.after, Position.offset_afterAll]

def pieceOf (s : Scanner) (t : Token) : Piece := ⟨s.cursor.rest.takeWhile Text.isBlank, t⟩

section Token

variable {t : Token}

theorem solid_pieceOf (ht : s.next.1 = .ok t) (hend : t.isEnd = false) : (pieceOf s t).Solid where
  blanks := (Grammar.longest_blanks s.cursor.rest).mem
  lexeme := by
    cases hrest : (Step.afterBlanks s.cursor).rest with
    | nil =>
      obtain rfl : Token.endOfInput _ = t := Except.ok.inj ((next_of_nil hrest).symm.trans ht)
      cases hend
    | cons first tail =>
      obtain ⟨-, lexeme, hlexeme⟩ := token_of_cons hrest ht
      exact ⟨first, lexeme, hlexeme,
        (Grammar.isBlank_eq_false_iff first).mp (Step.head_afterBlanks hrest)⟩
  kind := beq_eq_false_iff_ne.mp hend

theorem text_pieceOf (ht : s.next.1 = .ok t) :
    s.cursor.rest = (pieceOf s t).text ++ s.next.2.cursor.rest := by
  have htext := blanks_append_text_append_rest s
  rw [ht] at htext
  rw [Piece.text, List.append_assoc]
  exact htext.symm

theorem offset_pieceOf (ht : s.next.1 = .ok t) :
    t.position.offset = s.position.offset + (pieceOf s t).gap.length := by
  have hplace := offset_place_next s
  rw [ht] at hplace
  exact hplace

theorem offset_next_eq_token (ht : s.next.1 = .ok t) :
    s.next.2.position.offset = t.position.offset + t.lexeme.length := by
  have hnext := offset_next s
  rw [ht] at hnext
  rw [← String.length_toList]
  exact hnext

theorem offset_next_eq_piece (ht : s.next.1 = .ok t) :
    s.next.2.position.offset = s.position.offset + (pieceOf s t).text.length := by
  have htext : (pieceOf s t).text.length = (pieceOf s t).gap.length + t.lexeme.length := by
    rw [Piece.text, List.length_append, String.length_toList]
    rfl
  calc
    s.next.2.position.offset = t.position.offset + t.lexeme.length := offset_next_eq_token ht
    _ = s.position.offset + (pieceOf s t).gap.length + t.lexeme.length := by rw [offset_pieceOf ht]
    _ = s.position.offset + (pieceOf s t).text.length := by rw [htext, Nat.add_assoc]

end Token

theorem of_final (h : s.next.1.isFinal = true) :
    Tiling s [] (s.cursor.rest.takeWhile Text.isBlank) (Step.afterBlanks s.cursor).rest s.next.1 where
  items := congrArg Prod.fst (drain_of_final h)
  text := (Step.blanks_append_rest s.cursor).symm
  solid := fun _ hp => absurd hp List.not_mem_nil
  blanks := (Grammar.longest_blanks s.cursor.rest).mem
  offset := fun before _ _ hsplit => by simp at hsplit
  cursor := fun before _ _ hsplit => by simp at hsplit
  endOfInput := by
    intro t ht
    cases hrest : (Step.afterBlanks s.cursor).rest with
    | nil =>
      obtain rfl : Token.endOfInput _ = t := Except.ok.inj ((next_of_nil hrest).symm.trans ht)
      have hoffset := offset_place_next s
      have hblanks := Step.blanks_append_rest s.cursor
      rw [hrest, List.append_nil] at hblanks
      rw [ht, hblanks] at hoffset
      exact ⟨rfl, rfl, rfl, hoffset⟩
    | cons first rest =>
      have hend := (token_of_cons hrest ht).1
      rw [ht] at h
      exact absurd (h.symm.trans hend) Bool.noConfusion
  error := by
    intro e he
    refine ⟨?_, ?_, ?_⟩
    · cases hrest : (Step.afterBlanks s.cursor).rest with
      | nil =>
        have hok := (next_of_nil hrest).symm.trans he
        cases hok
      | cons first rest =>
        exact ⟨first, rest, rfl,
          (Grammar.isBlank_eq_false_iff first).mp (Step.head_afterBlanks hrest)⟩
    · have hoffset := offset_place_next s
      rw [he] at hoffset
      exact hoffset
    · rw [drain_of_final h, position_next, he]
      rfl

/-- A token in front of a tiling extends it by the piece of the token. -/
theorem cons {t : Token} {pieces : List Piece} {gap rest : List Char} {final : Item}
    (ht : s.next.1 = .ok t) (hend : t.isEnd = false) (h : Tiling s.next.2 pieces gap rest final) :
    Tiling s (pieceOf s t :: pieces) gap rest final := by
  have hdrain : s.drain = (s.next.1 :: s.next.2.drain.1, s.next.2.drain.2) :=
    drain_of_more (by rw [ht]; exact hend)
  have htext := text_pieceOf ht
  have hpiece := offset_next_eq_piece ht
  refine ⟨?_, ?_, ?_, h.blanks, ?_, ?_, ?_, ?_⟩
  · rw [hdrain, ht, h.items]
    rfl
  · rw [htext, h.text, List.flatMap_cons]
    simp only [List.append_assoc]
  · exact List.forall_mem_cons.mpr ⟨solid_pieceOf ht hend, h.solid⟩
  · rintro (_ | ⟨q, before⟩) p after hsplit
    · obtain ⟨rfl, -⟩ := List.cons.inj hsplit
      exact offset_pieceOf ht
    · obtain ⟨rfl, hpieces⟩ := List.cons.inj hsplit
      have hoffset := h.offset before p after hpieces
      rw [hoffset, hpiece, List.flatMap_cons, List.length_append]
      omega
  · rintro (_ | ⟨q, before⟩) p after hsplit
    · obtain ⟨rfl, -⟩ := List.cons.inj hsplit
      exact offset_next_eq_token ht
    · obtain ⟨rfl, hpieces⟩ := List.cons.inj hsplit
      exact h.cursor before p after hpieces
  · intro u hu
    obtain ⟨hrest, hkind, hlexeme, hoffset⟩ := h.endOfInput u hu
    refine ⟨hrest, hkind, hlexeme, ?_⟩
    rw [hoffset, hpiece, htext, List.length_append, Nat.add_assoc]
  · intro e he
    obtain ⟨hrest, hoffset, hposition⟩ := h.error e he
    refine ⟨hrest, ?_, ?_⟩
    · rw [hoffset, hpiece, List.flatMap_cons]
      simp only [List.length_append]
      omega
    · rw [hdrain]
      exact hposition

theorem exists_of_scanner (s : Scanner) : ∃ pieces gap rest final, Tiling s pieces gap rest final := by
  induction s using pull_induction with
  | hfinal s h => exact ⟨_, _, _, _, of_final h⟩
  | hmore s h ih =>
    obtain ⟨pieces, gap, rest, final, htiling⟩ := ih
    cases ht : s.next.1 with
    | error e =>
      rw [ht] at h
      cases h
    | ok t =>
      rw [ht] at h
      exact ⟨_, _, _, _, htiling.cons ht h⟩

theorem ordered {pieces : List Piece} {gap rest : List Char} {final : Item}
    (h : Tiling s pieces gap rest final) {before after : List Piece} {p q : Piece}
    (hsplit : pieces = before ++ p :: q :: after) :
    p.token.position.offset + p.token.lexeme.length ≤ q.token.position.offset := by
  have hp := h.offset before p (q :: after) hsplit
  have hq := h.offset (before ++ [p]) q after (by rw [hsplit, List.append_assoc]; rfl)
  have htext : ((before ++ [p]).flatMap Piece.text).length =
      (before.flatMap Piece.text).length + (p.gap.length + p.token.lexeme.length) := by
    rw [List.flatMap_append, List.flatMap_cons, List.flatMap_nil, List.append_nil,
      List.length_append, Piece.text, List.length_append, String.length_toList]
  omega

/-- The items of a text tile it, and lose none of its characters. -/
theorem drain_tiles_source (source : List Char) (mode : Mode) :
    ∃ pieces gap rest final,
      source = pieces.flatMap Piece.text ++ gap ++ rest ∧
        Tiling (Scanner.ofText source mode) pieces gap rest final ∧
        ∀ before p q after, pieces = before ++ p :: q :: after →
          p.token.position.offset + p.token.lexeme.length ≤ q.token.position.offset := by
  obtain ⟨pieces, gap, rest, final, htiling⟩ := exists_of_scanner (Scanner.ofText source mode)
  exact ⟨pieces, gap, rest, final, htiling.text, htiling, fun _ _ _ _ hsplit => htiling.ordered hsplit⟩

end Tiling

end Lexemes
