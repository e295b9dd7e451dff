import Lexemes.Proofs.Boundary
import Lexemes.Proofs.Places

namespace Lexemes

/-- A place in a text, seen as a place behind another text. Only places on the first line of their
text stand on the line on which the other text ends. -/
def Position.behind (before : List Char) (p : Position) : Position :=
  ⟨p.offset + before.length, p.line + before.count '\n',
    if p.line = 1 then p.column + (before.rtakeWhile (· != '\n')).length else p.column⟩

def Token.behind (before : List Char) (t : Token) : Token :=
  { t with position := t.position.behind before }

def ScanError.behind (before : List Char) (e : ScanError) : ScanError :=
  { e with position := e.position.behind before }

namespace Item

def behind (before : List Char) : Item → Item
  | .ok token => .ok (token.behind before)
  | .error e => .error (e.behind before)

variable {before : List Char}

theorem text_behind (item : Item) : (item.behind before).text = item.text := by
  cases item <;> rfl

theorem isFinal_behind (item : Item) : (item.behind before).isFinal = item.isFinal := by
  cases item <;> rfl

theorem ofOutcome_behind (p : Position) (outcome : Except Fault Grammar.Beginning) :
    ofOutcome (p.behind before) outcome = (ofOutcome p outcome).behind before := by
  cases outcome <;> rfl

end Item

namespace Position

variable {before : List Char} {p : Position}

theorem behind_start (before : List Char) : start.behind before = start.afterAll before := by
  have hline : (start.afterAll before).line = 1 + before.count '\n' := line_afterAll_start before
  have hcolumn : (start.afterAll before).column =
      1 + (before.rtakeWhile (· != '\n')).length := column_afterAll_start before
  have hoffset : (start.afterAll before).offset = 0 + before.length := offset_afterAll start before
  show Position.mk (0 + before.length) (1 + before.count '\n')
    (1 + (before.rtakeWhile (· != '\n')).length) = _
  rw [← hoffset, ← hline, ← hcolumn]

theorem behind_nil (p : Position) : p.behind [] = p := by
  have hcolumn : (if p.line = 1 then p.column + 0 else p.column) = p.column := by
    split <;> rfl
  show Position.mk (p.offset + 0) (p.line + 0) (if p.line = 1 then p.column + 0 else p.column) = p
  rw [hcolumn]
  rfl

/-- Lines are counted from one, so a line feed always leads to a line other than the first. -/
theorem behind_after (hline : 1 ≤ p.line) (c : Char) :
    (p.behind before).after c = (p.after c).behind before := by
  have hoffset : p.offset + before.length + 1 = p.offset + 1 + before.length := by omega
  have hbelow : p.line + before.count '\n' + 1 = p.line + 1 + before.count '\n' := by omega
  by_cases hc : c = '\n'
  · have hother : p.line + 1 ≠ 1 := by omega
    simp only [after, behind, hc, if_true, if_neg hother, hoffset, hbelow]
  · by_cases hfirst : p.line = 1
    · simp only [after, behind, hc, if_false, hfirst, if_true, hoffset]
      congr 1
      omega
    · simp only [after, behind, hc, if_false, hfirst, hoffset]

theorem line_le_after (p : Position) (c : Char) : p.line ≤ (p.after c).line := by
  rw [line_after]
  exact Nat.le_add_right _ _

theorem line_le_afterAll (p : Position) (text : List Char) : p.line ≤ (p.afterAll text).line := by
  induction text generalizing p with
  | nil => exact Nat.le_refl _
  | cons c text ih => exact Nat.le_trans (p.line_le_after c) (ih (p.after c))

theorem behind_afterAll (hline : 1 ≤ p.line) (text : List Char) :
    (p.behind before).afterAll text = (p.afterAll text).behind before := by
  induction text generalizing p with
  | nil => rfl
  | cons c text ih =>
    rw [afterAll_cons, afterAll_cons, behind_after hline]
    exact ih (Nat.le_trans hline (p.line_le_after c))

end Position

/-- A cursor that sees the same text as another one, from a place behind a text before it. -/
structure Cursor.Behind (before : List Char) (c d : Cursor) : Prop where
  rest : d.rest = c.rest
  position : d.position = c.position.behind before
  line : 1 ≤ c.position.line

namespace Cursor.Behind

variable {before : List Char} {c d : Cursor}

theorem advance (h : Behind before c d) (count : Nat) :
    Behind before (c.advance count) (d.advance count) where
  rest := by rw [Cursor.advance, Cursor.advance, h.rest]
  position := by
    rw [Cursor.advance, Cursor.advance, h.rest, h.position]
    exact Position.behind_afterAll h.line _
  line := Nat.le_trans h.line (Position.line_le_afterAll _ _)

theorem afterBlanks (h : Behind before c d) :
    Behind before (Step.afterBlanks c) (Step.afterBlanks d) := by
  have hrun : d.rest.takeWhile Text.isBlank = c.rest.takeWhile Text.isBlank := by rw [h.rest]
  rw [Step.afterBlanks, Step.afterBlanks, hrun]
  exact h.advance _

end Cursor.Behind

namespace Scanner

variable {s t : Scanner} {before : List Char}

/-- Scanners that see the same text behind the blanks find the same items, each at its own place. -/
theorem drain_behind (hmode : t.mode = s.mode)
    (h : Cursor.Behind before (Step.afterBlanks s.cursor) (Step.afterBlanks t.cursor)) :
    t.drain.1 = s.drain.1.map (Item.behind before) := by
  have hitem {s t : Scanner} (hmode : t.mode = s.mode)
      (h : Cursor.Behind before (Step.afterBlanks s.cursor) (Step.afterBlanks t.cursor)) :
      t.next.1 = s.next.1.behind before := by
    rw [item_next, item_next, hmode, h.rest, h.position, Item.ofOutcome_behind]
  induction s using pull_induction generalizing t with
  | hfinal s hfinal =>
    have hthere : t.next.1.isFinal = true := by rw [hitem hmode h, Item.isFinal_behind, hfinal]
    rw [drain_of_final hthere, drain_of_final hfinal, hitem hmode h]
    rfl
  | hmore s hmore ih =>
    have hthere : t.next.1.isFinal = false := by rw [hitem hmode h, Item.isFinal_behind, hmore]
    have hcursor : Cursor.Behind before s.next.2.cursor t.next.2.cursor := by
      rw [cursor_next, cursor_next, hitem hmode h, Item.text_behind]
      exact h.advance _
    have hmode' : t.next.2.mode = s.next.2.mode := by rw [mode_next, mode_next, hmode]
    rw [drain_of_more hthere, drain_of_more hmore, hitem hmode h, ih hmode' hcursor.afterBlanks]
    rfl

/-- Scanners that stand at the same place behind the blanks, before the same text, find the same
items. -/
theorem drain_congr (hmode : t.mode = s.mode) (hline : 1 ≤ (Step.afterBlanks s.cursor).position.line)
    (h : Step.afterBlanks t.cursor = Step.afterBlanks s.cursor) : t.drain.1 = s.drain.1 := by
  have hbehind : Cursor.Behind [] (Step.afterBlanks s.cursor) (Step.afterBlanks t.cursor) :=
    ⟨by rw [h], by rw [h, Position.behind_nil], hline⟩
  have hsame : Item.behind [] = id := by
    funext item
    cases item <;> simp [Item.behind, Token.behind, ScanError.behind, Position.behind_nil]
  rw [drain_behind hmode hbehind, hsame, List.map_id]

/-- Only blanks are ahead of a scanner that answers with the end of the input. -/
theorem blanks_of_end {token : Token} (hitem : s.next.1 = .ok token) (hend : token.isEnd = true) :
    ∀ c ∈ s.cursor.rest, Text.isBlank c = true := by
  cases hrest : (Step.afterBlanks s.cursor).rest with
  | nil =>
    have hblanks := Step.blanks_append_rest s.cursor
    rw [hrest, List.append_nil] at hblanks
    intro c hc
    rw [← hblanks] at hc
    exact List.mem_takeWhile_imp hc
  | cons first rest =>
    have hmore : token.isEnd = false := (token_of_cons hrest hitem).1
    rw [hmore] at hend
    cases hend

/-- A strict scanner that reads the whole text ahead of it reads the same tokens in front of a text
that continues no token, and then what a scanner finds that stands between the two texts. -/
theorem drain_append {u : Scanner} {more : List Char} {tokens : List Token}
    (hs : s.mode = .strict) (ht : t.mode = .strict) (hu : u.mode = .strict)
    (hposition : t.position = s.position) (hrest : t.cursor.rest = s.cursor.rest ++ more)
    (hmore : Grammar.Parted more) (hline : 1 ≤ s.position.line)
    (hcursor : u.cursor = ⟨s.position.afterAll s.cursor.rest, more⟩)
    (htokens : s.drain.1 = tokens.map .ok) :
    t.drain.1 = tokens.dropLast.map .ok ++ u.drain.1 := by
  induction s using pull_induction generalizing t tokens with
  | hfinal s hfinal =>
    rw [drain_of_final hfinal] at htokens
    obtain ⟨token, rfl, hitem⟩ := List.map_eq_singleton_iff.mp htokens.symm
    have hend : token.isEnd = true := by
      rw [← hitem] at hfinal
      exact hfinal
    have hblanks : Step.afterBlanks t.cursor = Step.afterBlanks u.cursor := by
      have hplace : t.cursor.position.afterAll s.cursor.rest =
          s.position.afterAll s.cursor.rest := congrArg (·.afterAll s.cursor.rest) hposition
      rw [Step.afterBlanks_of_blanks hrest (blanks_of_end hitem.symm hend), hplace, hcursor]
    have hcount : 1 ≤ (Step.afterBlanks u.cursor).position.line := by
      rw [Step.position_afterBlanks, hcursor]
      exact Nat.le_trans hline (Nat.le_trans (Position.line_le_afterAll _ _)
        (Position.line_le_afterAll _ _))
    exact drain_congr (ht.trans hu.symm) hcount hblanks
  | hmore s hnext ih =>
    rw [drain_of_more hnext] at htokens
    obtain ⟨token, others, rfl, hitem, hothers⟩ := List.map_eq_cons_iff.mp htokens.symm
    obtain ⟨gap, text, b, hsplit, hgap, hne, hb⟩ := exists_gap_of_more hnext
    obtain ⟨hhere, -, hleft, hplace⟩ := next_of_gap hsplit hgap hne hb
    have hlonger : Grammar.recognize t.mode (text ++ more) = .ok b := by
      rw [hs] at hb
      rw [ht]
      exact Grammar.recognize_append hb hne hmore
    have hsplit' : t.cursor.rest = gap ++ (text ++ more) := by
      rw [hrest, hsplit, List.append_assoc]
    obtain ⟨hthere, hnext', hleft', hplace'⟩ :=
      next_of_gap hsplit' hgap (List.append_ne_nil_of_left_ne_nil hne more) hlonger
    have hlexeme : b.lexeme <+: text := Grammar.lexeme_begins hb
    have hitem' : t.next.1 = .ok token := by rw [hthere, hposition, hitem, hhere]
    have hend : s.next.2.position.afterAll s.next.2.cursor.rest = s.position.afterAll s.cursor.rest := by
      rw [hplace, hleft, hsplit, ← Position.afterAll_append, List.append_assoc,
        List.prefix_iff_eq_append.mp hlexeme]
    have hnonempty : others ≠ [] := by
      rintro rfl
      have hlength := s.next.2.drain_length_pos
      rw [← hothers] at hlength
      cases hlength
    have hline' : 1 ≤ s.next.2.position.line := by
      rw [hplace]
      exact Nat.le_trans hline (Position.line_le_afterAll _ _)
    have hrest' : t.next.2.cursor.rest = s.next.2.cursor.rest ++ more := by
      rw [hleft', hleft, List.drop_append_of_le_length hlexeme.length_le]
    have hlater : t.next.2.drain.1 = others.dropLast.map .ok ++ u.drain.1 :=
      ih ((mode_next s).trans hs) ((mode_next t).trans ht)
        (by rw [hplace', hplace, hposition]) hrest' hline' (by rw [hend, hcursor]) hothers.symm
    rw [drain_of_more hnext', hitem', hlater, List.dropLast_cons_of_ne_nil hnonempty, List.map_cons,
      List.cons_append]

end Scanner

namespace Item

theorem collect_behind (before : List Char) (items : List Item) :
    collect (items.map (behind before)) =
      ((collect items).mapError (ScanError.behind before)).map (List.map (Token.behind before)) := by
  have hlast : (items.map (behind before)).getLast? = items.getLast?.map (behind before) :=
    List.getLast?_map
  have hall : (items.map (behind before)).filterMap Except.toOption =
      (items.filterMap Except.toOption).map (Token.behind before) := by
    rw [List.filterMap_map, List.map_filterMap]
    congr 1
    funext item
    cases item <;> rfl
  rw [collect, collect, hlast, hall]
  rcases items.getLast? with _ | _ | _ <;> rfl

end Item

/-- If a strict reading takes the whole of a text, and the text behind it is empty or begins with a
character that belongs neither to words nor to numbers, then a strict reading of both finds the tokens
of the first text up to its end, and then the tokens or the error of the second text, behind the
first. -/
theorem tokens_append (before more : List Char) (tokens : List Token)
    (hbefore : (Scanner.ofText before .strict).tokens.1 = .ok tokens)
    (hmore : Grammar.Parted more) :
    (Scanner.ofText (before ++ more) .strict).tokens.1 =
      ((Scanner.ofText more .strict).tokens.1.mapError (ScanError.behind before)).map
        fun others => tokens.dropLast ++ others.map (Token.behind before) := by
  let between : Scanner :=
    { Scanner.ofText more .strict with cursor := ⟨Position.start.afterAll before, more⟩ }
  have htokens : (Scanner.ofText before .strict).drain.1 = tokens.map .ok := by
    rw [Scanner.tokens_eq] at hbefore
    exact (Scanner.drain_ended _).eq_map_of_collect hbefore
  have hboth : (Scanner.ofText (before ++ more) .strict).drain.1 =
      tokens.dropLast.map .ok ++ between.drain.1 :=
    Scanner.drain_append (s := .ofText before .strict) rfl rfl rfl rfl rfl hmore (Nat.le_refl 1) rfl
      htokens
  have hcursor : Cursor.Behind before (Cursor.ofText more) between.cursor :=
    ⟨rfl, (Position.behind_start before).symm, Nat.le_refl 1⟩
  have hbetween : between.drain.1 =
      (Scanner.ofText more .strict).drain.1.map (Item.behind before) :=
    Scanner.drain_behind (s := .ofText more .strict) rfl hcursor.afterBlanks
  have hne : between.drain.1 ≠ [] := List.ne_nil_of_length_pos between.drain_length_pos
  rw [Scanner.tokens_eq, Scanner.tokens_eq, hboth, Item.collect_append hne, hbetween,
    Item.collect_behind]
  cases Item.collect (Scanner.ofText more .strict).drain.1 <;> rfl

/-- A number with a minus sign may stand right behind a number that ends in a point. -/
theorem tokens_append_minus_after_point :
    (Scanner.ofText ['k', '\n', '4', '.'] .strict).tokens.1 =
        .ok [⟨.identifier, "k", .text "k", ⟨0, 1, 1⟩⟩,
          ⟨.float, "4.", .float ⟨false, 0x4010000000000000, by decide⟩, ⟨2, 2, 1⟩⟩,
          Token.endOfInput ⟨4, 2, 3⟩] ∧
      Grammar.Parted ['-', '7', '\n', 'x'] ∧
      (Scanner.ofText (['k', '\n', '4', '.'] ++ ['-', '7', '\n', 'x']) .strict).tokens.1 =
        .ok [⟨.identifier, "k", .text "k", ⟨0, 1, 1⟩⟩,
          ⟨.float, "4.", .float ⟨false, 0x4010000000000000, by decide⟩, ⟨2, 2, 1⟩⟩,
          ⟨.integer, "-7", .integer (-7), ⟨4, 2, 3⟩⟩,
          ⟨.identifier, "x", .text "x", ⟨7, 3, 1⟩⟩,
          Token.endOfInput ⟨8, 3, 2⟩] := by
  have hbefore : (Scanner.ofText ['k', '\n', '4', '.'] .strict).tokens.1 =
      .ok [⟨.identifier, "k", .text "k", ⟨0, 1, 1⟩⟩,
        ⟨.float, "4.", .float ⟨false, 0x4010000000000000, by decide⟩, ⟨2, 2, 1⟩⟩,
        Token.endOfInput ⟨4, 2, 3⟩] := by decide +kernel
  have hmore : Grammar.Parted ['-', '7', '\n', 'x'] := by
    intro c rest hc
    obtain ⟨rfl, -⟩ := List.cons.inj hc
    decide
  refine ⟨hbefore, hmore, (tokens_append _ _ _ hbefore hmore).trans ?_⟩
  decide +kernel

end Lexemes
