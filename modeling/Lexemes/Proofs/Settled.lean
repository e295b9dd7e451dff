import Lexemes.Proofs.Boundary
import Lexemes.Proofs.Pulls

namespace Lexemes

namespace Grammar

/-- An outcome that does not hang on where the text ends. -/
def Settled (text : List Char) : Except Fault Beginning → Prop
  | .ok b => b.lexeme.length < text.length
  | .error (.unknown _) => True
  | .error (.malformed lexeme) => lexeme.length < text.length
  | .error .unterminated => 2 < text.length

variable {mode : Mode} {text more : List Char}

/-- A run that ends before its text does is not made longer by what is written behind the text. -/
theorem takeWhile_append_of_lt {p : Char → Bool} (h : (text.takeWhile p).length < text.length) :
    (text ++ more).takeWhile p = text.takeWhile p := by
  rw [List.takeWhile_append, if_neg (Nat.ne_of_lt h)]

theorem closed_append (h : 2 < text.length) : Closed mode (text ++ more) ↔ Closed mode text := by
  cases mode with
  | strict =>
    show (text ++ more)[2]? = some '\'' ↔ text[2]? = some '\''
    rw [List.getElem?_append_left h]
  | lenient =>
    have hlonger : 2 ≤ (text ++ more).length := by
      rw [List.length_append]
      omega
    exact iff_of_true hlonger (Nat.le_of_lt h)

/-- What a text begins with stays the same in a longer text once it is settled. -/
theorem recognize_append_of_settled (h : Settled text (recognize mode text)) :
    recognize mode (text ++ more) = recognize mode text := by
  have hreads : Reads mode text (recognize mode text) := reads_recognize mode text
  generalize recognize mode text = outcome at h hreads ⊢
  cases hreads with
  | endOfInput => exact absurd h (Nat.lt_irrefl 0)
  | punctuation hmark rest => exact recognize_mark hmark _
  | @word c rest found hc hfound =>
    obtain rfl : found = c :: rest.takeWhile isWordPart :=
      hfound.unique (longest_shape isWordPart_iff hc rest)
    have hrun : (rest ++ more).takeWhile isWordPart = rest.takeWhile isWordPart :=
      takeWhile_append_of_lt (Nat.lt_of_succ_lt_succ h)
    rw [List.cons_append, recognize_letter ((isAlpha_iff_letter c).mpr hc), hrun]
  | @number c rest found kind payload hc hfound hkind hvalue =>
    obtain rfl : found = c :: rest.takeWhile isNumberPart :=
      hfound.unique (longest_shape isNumberPart_iff hc rest)
    have hrun : (rest ++ more).takeWhile isNumberPart = rest.takeWhile isNumberPart :=
      takeWhile_append_of_lt (Nat.lt_of_succ_lt_succ h)
    rw [List.cons_append, recognize_numberStart ((isNumberStart_iff c).mpr hc), hrun, numberRun, hvalue]
  | @malformed c rest found hc hfound hvalue =>
    obtain rfl : found = c :: rest.takeWhile isNumberPart :=
      hfound.unique (longest_shape isNumberPart_iff hc rest)
    have hshort : (String.ofList (c :: rest.takeWhile isNumberPart)).length < (c :: rest).length := h
    rw [String.length_ofList] at hshort
    have hrun : (rest ++ more).takeWhile isNumberPart = rest.takeWhile isNumberPart :=
      takeWhile_append_of_lt (Nat.lt_of_succ_lt_succ hshort)
    rw [List.cons_append, recognize_numberStart ((isNumberStart_iff c).mpr hc), hrun, numberRun, hvalue]
  | @character c rest hclosed =>
    have hshort : (('\'' :: c :: rest).take 3).length < ('\'' :: c :: rest).length := h
    rw [List.length_take] at hshort
    have hthree : 3 ≤ ('\'' :: c :: rest).length := by omega
    have hcut : ('\'' :: c :: (rest ++ more)).take 3 = ('\'' :: c :: rest).take 3 :=
      List.take_append_of_le_length hthree
    have hlonger : Closed mode ('\'' :: c :: (rest ++ more)) := (closed_append hthree).mpr hclosed
    rw [← hcut]
    exact recognize_of_reads (.character hlonger)
  | @unterminated rest hopen =>
    have hlonger : ¬Closed mode ('\'' :: (rest ++ more)) := fun hclosed =>
      hopen ((closed_append h).mp hclosed)
    exact recognize_of_reads (.unterminated hlonger)
  | unknown hmark hletter hnumber hquote =>
    exact recognize_of_reads (.unknown hmark hletter hnumber hquote)

end Grammar

/-- An item that is settled before the end of a text of so many characters: a token or a malformed
number with a character behind it, an unknown character, or a literal without an end of which the third
character is there. -/
def Item.Settled (length : Nat) : Item → Prop
  | .ok t => t.isEnd = false ∧ t.position.offset + t.lexeme.length < length
  | .error ⟨.unknown _, _⟩ => True
  | .error ⟨.malformed lexeme, p⟩ => p.offset + lexeme.length < length
  | .error ⟨.unterminated, p⟩ => p.offset + 2 < length

/-- A cursor that stands at the same place in a longer text. -/
structure Cursor.Longer (more : List Char) (c d : Cursor) : Prop where
  position : d.position = c.position
  rest : d.rest = c.rest ++ more

namespace Cursor.Longer

variable {more : List Char} {c d : Cursor}

theorem advance (h : Longer more c d) {count : Nat} (hcount : count ≤ c.rest.length) :
    Longer more (c.advance count) (d.advance count) where
  position := by
    rw [Cursor.advance, Cursor.advance, h.position, h.rest, List.take_append_of_le_length hcount]
  rest := by rw [Cursor.advance, Cursor.advance, h.rest, List.drop_append_of_le_length hcount]

/-- Blanks that end before their text does are all that is passed over in the longer text. -/
theorem afterBlanks (h : Longer more c d) (hne : (Step.afterBlanks c).rest ≠ []) :
    Longer more (Step.afterBlanks c) (Step.afterBlanks d) := by
  have hsplit : (c.rest.takeWhile Text.isBlank).length + (Step.afterBlanks c).rest.length =
      c.rest.length := by rw [← List.length_append, Step.blanks_append_rest]
  have hpos : 0 < (Step.afterBlanks c).rest.length := List.length_pos_iff.mpr hne
  have hrun : d.rest.takeWhile Text.isBlank = c.rest.takeWhile Text.isBlank := by
    rw [h.rest]
    apply Grammar.takeWhile_append_of_lt
    omega
  rw [Step.afterBlanks, Step.afterBlanks, hrun]
  apply h.advance
  omega

end Cursor.Longer

namespace Scanner

variable {s t : Scanner} {more : List Char} {item : Item} {i : Nat}

theorem limit_afterBlanks (c : Cursor) :
    (Step.afterBlanks c).position.offset + (Step.afterBlanks c).rest.length = c.limit :=
  Cursor.limit_advance c (List.takeWhile_sublist _).length_le

/-- The end of the text stays where it is from one answer to the next. -/
theorem limit_next (s : Scanner) : s.next.2.cursor.limit = s.cursor.limit := by
  rw [cursor_next, Cursor.limit_advance _ s.text_begins.length_le]
  exact limit_afterBlanks s.cursor

/-- An answer is settled before the end of the text if what it has found behind the blanks is. -/
theorem settled_recognize (h : s.next.1.Settled s.cursor.limit) :
    Grammar.Settled (Step.afterBlanks s.cursor).rest
      (Grammar.recognize s.mode (Step.afterBlanks s.cursor).rest) := by
  have hlimit := limit_afterBlanks s.cursor
  rw [item_next, ← hlimit] at h
  generalize Grammar.recognize s.mode (Step.afterBlanks s.cursor).rest = outcome at h ⊢
  rcases outcome with (c | lexeme | _) | b
  · exact trivial
  · exact Nat.lt_of_add_lt_add_left h
  · exact Nat.lt_of_add_lt_add_left h
  · have hshort : (String.ofList b.lexeme).length < (Step.afterBlanks s.cursor).rest.length :=
      Nat.lt_of_add_lt_add_left h.2
    rw [String.length_ofList] at hshort
    exact hshort

theorem ne_nil_of_settled (h : s.next.1.Settled s.cursor.limit) :
    (Step.afterBlanks s.cursor).rest ≠ [] := by
  intro hnil
  rw [next_of_nil hnil] at h
  cases h.1

/-- A settled answer is the answer in the longer text too, and the two scanners move alike. -/
theorem next_longer (hmode : t.mode = s.mode) (hcursor : Cursor.Longer more s.cursor t.cursor)
    (h : s.next.1.Settled s.cursor.limit) :
    t.next.1 = s.next.1 ∧ Cursor.Longer more s.next.2.cursor t.next.2.cursor := by
  have hblanks := hcursor.afterBlanks (ne_nil_of_settled h)
  have hitem : t.next.1 = s.next.1 := by
    rw [item_next, item_next, hmode, hblanks.position, hblanks.rest,
      Grammar.recognize_append_of_settled (settled_recognize h)]
  refine ⟨hitem, ?_⟩
  rw [cursor_next, cursor_next, hitem]
  exact hblanks.advance s.text_begins.length_le

/-- Where nothing is left, no item is settled. -/
theorem rest_ne_nil_of_settled (hitem : item ∈ s.drain.1) (h : item.Settled s.cursor.limit) :
    s.cursor.rest ≠ [] := by
  intro hnil
  have hrest : (Step.afterBlanks s.cursor).rest = [] := by rw [Step.rest_afterBlanks, hnil]; rfl
  have hend := next_of_nil hrest
  have hfinal : s.next.1.isFinal = true := by rw [hend]; rfl
  rw [drain_of_final hfinal, hend] at hitem
  obtain rfl := List.mem_singleton.mp hitem
  cases h.1

/-- A token is settled if any text is left behind it. -/
theorem settled_of_more (hmore : s.next.1.isFinal = false) (hrest : s.next.2.cursor.rest ≠ []) :
    s.next.1.Settled s.cursor.limit := by
  have hpos : 0 < s.next.2.cursor.rest.length := List.length_pos_iff.mpr hrest
  have hlimit : s.next.2.position.offset + s.next.2.cursor.rest.length = s.cursor.limit := s.limit_next
  rw [position_next, Item.after, Position.offset_afterAll] at hlimit
  cases ht : s.next.1 with
  | error e =>
    rw [ht] at hmore
    cases hmore
  | ok token =>
    rw [ht] at hmore hlimit
    have hplace : token.position.offset + token.lexeme.toList.length + s.next.2.cursor.rest.length =
        s.cursor.limit := hlimit
    rw [String.length_toList] at hplace
    exact ⟨hmore, by omega⟩

/-- Scanners at the same place in a text and in a longer one find the same items up to one that is
settled. -/
theorem take_drain_longer (hmode : t.mode = s.mode) (hcursor : Cursor.Longer more s.cursor t.cursor)
    (hitem : s.drain.1[i]? = some item) (h : item.Settled s.cursor.limit) :
    t.drain.1.take (i + 1) = s.drain.1.take (i + 1) := by
  induction i generalizing s t with
  | zero =>
    have hhead : some s.next.1 = some item := by rw [← head_drain, List.head?_eq_getElem?, hitem]
    rw [← Option.some.inj hhead] at h
    rw [List.take_one, List.take_one, head_drain, head_drain, (next_longer hmode hcursor h).1]
  | succ i ih =>
    cases hmore : s.next.1.isFinal with
    | true =>
      rw [drain_of_final hmore] at hitem
      cases hitem
    | false =>
      rw [drain_of_more hmore, List.getElem?_cons_succ] at hitem
      have hlater : item.Settled s.next.2.cursor.limit := by rw [limit_next]; exact h
      have hrest := rest_ne_nil_of_settled (List.mem_of_getElem? hitem) hlater
      obtain ⟨hsame, hnext⟩ := next_longer hmode hcursor (settled_of_more hmore hrest)
      have hthere : t.next.1.isFinal = false := by rw [hsame, hmore]
      have hmode' : t.next.2.mode = s.next.2.mode := by rw [mode_next, mode_next, hmode]
      rw [drain_of_more hthere, drain_of_more hmore, List.take_succ_cons, List.take_succ_cons, hsame,
        ih hmode' hnext hitem hlater]

/-- If an item of a text is settled before the end of the text, then the items up to it are the first
items of every longer text. -/
theorem settled_items_persist (text more : List Char) (mode : Mode) (i : Nat) (item : Item)
    (hitem : (ofText text mode).drain.1[i]? = some item) (hsettled : item.Settled text.length) :
    (ofText (text ++ more) mode).drain.1.take (i + 1) = (ofText text mode).drain.1.take (i + 1) := by
  have hlimit : (ofText text mode).cursor.limit = text.length := Nat.zero_add _
  have hcursor : Cursor.Longer more (ofText text mode).cursor (ofText (text ++ more) mode).cursor :=
    ⟨rfl, rfl⟩
  exact take_drain_longer rfl hcursor hitem (by rw [hlimit]; exact hsettled)

/-- A malformed number with text behind it, after a literal of a line feed that only the lenient mode
takes. -/
theorem settled_items_persist_malformed :
    (ofText "a '\nb 1.2.3 x".toList .lenient).drain.1[2]? =
        some (.error ⟨.malformed "1.2.3", ⟨6, 2, 3⟩⟩) ∧
      Item.Settled 13 (.error ⟨.malformed "1.2.3", ⟨6, 2, 3⟩⟩) ∧
      (ofText ("a '\nb 1.2.3 x".toList ++ "y '".toList) .lenient).drain.1.take 3 =
        [.ok ⟨.identifier, "a", .text "a", ⟨0, 1, 1⟩⟩,
          .ok ⟨.character, "'\nb", .char '\n', ⟨2, 1, 3⟩⟩,
          .error ⟨.malformed "1.2.3", ⟨6, 2, 3⟩⟩] := by
  have hitem : (ofText "a '\nb 1.2.3 x".toList .lenient).drain.1[2]? =
      some (.error ⟨.malformed "1.2.3", ⟨6, 2, 3⟩⟩) := by decide +kernel
  have hsettled : Item.Settled 13 (.error ⟨.malformed "1.2.3", ⟨6, 2, 3⟩⟩) := by
    show 6 + "1.2.3".length < 13
    decide
  refine ⟨hitem, hsettled, (settled_items_persist _ _ _ 2 _ hitem hsettled).trans ?_⟩
  decide +kernel

end Scanner

end Lexemes
