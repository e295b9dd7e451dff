import Lexemes.Proofs.Final
import Lexemes.Proofs.Leniency
import Lexemes.Proofs.NumberRuns

/-! The values of tokens as a text of its own. Unless it is a double, a value is read back from the text
that it has in messages, in either mode and whatever its lexeme was. So values that are written with
single spaces between them are scanned as tokens of the same kinds with the same values. -/
namespace Lexemes

/-- What a token says, apart from how it is spelled and where it stands: its kind and its value. -/
def Token.meaning (t : Token) : Kind × Payload := (t.kind, t.payload)

/-- The texts of some values with single spaces between them. -/
def Payload.spaced (payloads : List Payload) : List Char :=
  [' '].intercalate (payloads.map Payload.display)

/-- The text of the values of some tokens, without the end of the input. -/
def Token.valuesText (tokens : List Token) : List Char :=
  Payload.spaced ((tokens.filter fun t => !t.isEnd).map Token.payload)

theorem Payload.spaced_singleton (p : Payload) : spaced [p] = p.display := List.intercalate_singleton

namespace Grammar

variable {mode : Mode}

theorem numberRun_sign (negative : Bool) {digits : List Char} (hdigits : ∀ c ∈ digits, Digit c)
    (hne : digits ≠ []) : NumberRun ((if negative then ['-'] else []) ++ digits) := by
  cases negative with
  | true => exact ⟨Or.inr rfl, fun d hd => Or.inl (hdigits d hd)⟩
  | false =>
    cases digits with
    | nil => exact absurd rfl hne
    | cons c tail =>
      obtain ⟨hc, htail⟩ := List.forall_mem_cons.mp hdigits
      exact ⟨Or.inl hc, fun d hd => Or.inl (htail d hd)⟩

section Integer

theorem digit_toDigits (n : Nat) : ∀ c ∈ Nat.toDigits 10 n, Digit c := by
  intro c hc
  exact (isDigit_iff_digit c).mp (Nat.isDigit_of_mem_toDigits (by decide) (by decide) hc)

theorem ofInt_eq (n : Int) :
    Numeral.ofInt n = (if decide (n < 0) then ['-'] else []) ++ Nat.toDigits 10 n.natAbs := by
  by_cases hsign : n < 0 <;> simp only [Numeral.ofInt, Numeral.ofNat, hsign] <;> rfl

theorem numberRun_ofInt (n : Int) :
    NumberRun (Numeral.ofInt n) ∧ (Numeral.ofInt n).count '.' = 0 ∧ HasDigit (Numeral.ofInt n) := by
  have hdigits : ∀ c ∈ Nat.toDigits 10 n.natAbs, Digit c := digit_toDigits _
  have hne : Nat.toDigits 10 n.natAbs ≠ [] := Nat.toDigits_ne_nil
  rw [ofInt_eq, count_point_sign, hasDigit_sign, hasDigit_digits hdigits, List.count_eq_zero]
  refine ⟨numberRun_sign _ hdigits hne, ?_, hne⟩
  exact fun hpoint => absurd (hdigits '.' hpoint) (by decide)

theorem wholeValue_ofInt (n : Int) : wholeValue (Numeral.ofInt n) = n := by
  have hspelled : Numeral.decimalValue (Nat.toDigits 10 n.natAbs) = n.natAbs := by
    rw [← Numeral.digitsValue_eq]
    exact Nat.ofDigitChars_ten_toDigits
  rw [ofInt_eq, wholeValue_sign _ (digit_toDigits _), hspelled]
  by_cases hsign : n < 0
  · rw [decide_eq_true hsign, if_pos rfl]
    omega
  · rw [decide_eq_false hsign, if_neg Bool.false_ne_true]
    omega

/-- The digits of a number, behind a minus sign or not, are read as the integer that they spell. -/
theorem recognize_ofInt (n : Int64) :
    recognize mode (Numeral.ofInt n.toInt) = .ok ⟨Numeral.ofInt n.toInt, .integer, .integer n⟩ := by
  obtain ⟨hrun, hpoints, hdigit⟩ := numberRun_ofInt n.toInt
  have hvalue : wholeValue (Numeral.ofInt n.toInt) = n.toInt := wholeValue_ofInt n.toInt
  have hfits : Representable (wholeValue (Numeral.ofInt n.toInt)) := by
    rw [hvalue]
    exact representable_toInt n
  have hnumber : number? (Numeral.ofInt n.toInt) = some (.integer, .integer n) := by
    rw [(number?_whole hrun hpoints).1 hdigit hfits, hvalue, Int64.ofInt_toInt]
  rw [recognize_run hrun, numberRun, hnumber]

end Integer

theorem recognize_char (c : Char) :
    recognize mode ['\'', c, '\''] = .ok ⟨['\'', c, '\''], .character, .char c⟩ := by
  have hclosed : Closed mode ['\'', c, '\''] := by
    cases mode with
    | strict => rfl
    | lenient => exact Nat.le_add_left 2 1
  exact quoted_of_closed hclosed

end Grammar

/-- A kind and a value, where the text of the value is read as a token of that kind with that value. -/
structure Legible (v : Kind × Payload) : Prop where
  solid : v.1 ≠ .endOfInput
  recognized : Grammar.recognize .strict v.2.display = .ok ⟨v.2.display, v.1, v.2⟩

namespace Legible

variable {v : Kind × Payload} {values : List (Kind × Payload)}

/-- What has been read in any mode is legible, but for the doubles: a whole one is written without a
point. -/
theorem of_recognize {mode : Mode} {text : List Char} {b : Grammar.Beginning}
    (hb : Grammar.recognize mode text = .ok b) (hend : b.kind ≠ .endOfInput) (hfloat : b.kind ≠ .float) :
    Legible (b.kind, b.payload) where
  solid := hend
  recognized := by
    have hreads : Grammar.Reads mode text (.ok b) := Grammar.reads_iff.mpr hb.symm
    cases hreads with
    | endOfInput => exact absurd rfl hend
    | punctuation hmark rest =>
      rw [Payload.display, String.toList_ofList]
      exact Grammar.recognize_mark hmark []
    | word hc hfound =>
      rw [Payload.display, String.toList_ofList]
      exact Grammar.recognize_word hfound.mem
    | number hc hfound hkind hvalue =>
      rcases Grammar.exists_of_number? hvalue with ⟨rfl, n, rfl⟩ | ⟨rfl, x, rfl⟩
      · exact Grammar.recognize_ofInt n
      · exact absurd rfl hfloat
    | @character c rest hclosed => exact Grammar.recognize_char c

theorem integer (n : Int64) : Legible (.integer, .integer n) where
  solid := Kind.noConfusion
  recognized := Grammar.recognize_ofInt n

theorem char (c : Char) : Legible (.character, .char c) where
  solid := Kind.noConfusion
  recognized := Grammar.recognize_char c

/-- The token whose lexeme is the text of a value, behind a gap. -/
def piece (gap : List Char) (v : Kind × Payload) : Piece :=
  ⟨gap, ⟨v.1, String.ofList v.2.display, v.2, .start⟩⟩

/-- Values as pieces of a text, with a space in front of every one but the first. -/
def pieces : List (Kind × Payload) → List Piece
  | [] => []
  | v :: values => piece [] v :: values.map (piece [' '])

theorem text_piece (gap : List Char) (v : Kind × Payload) : (piece gap v).text = gap ++ v.2.display :=
  congrArg (gap ++ ·) String.toList_ofList

theorem mem_pieces {p : Piece} (hp : p ∈ pieces values) :
    ∃ v ∈ values, p = piece [] v ∨ p = piece [' '] v := by
  cases values with
  | nil => cases hp
  | cons v values =>
    rcases List.mem_cons.mp hp with rfl | hlater
    · exact ⟨v, List.mem_cons_self, Or.inl rfl⟩
    · obtain ⟨w, hw, rfl⟩ := List.mem_map.mp hlater
      exact ⟨w, List.mem_cons_of_mem v hw, Or.inr rfl⟩

theorem text_pieces (values : List (Kind × Payload)) :
    (pieces values).flatMap Piece.text = Payload.spaced (values.map Prod.snd) := by
  cases values with
  | nil => rfl
  | cons v values =>
    rw [pieces, List.flatMap_cons, text_piece, List.nil_append]
    induction values generalizing v with
    | nil => exact (List.append_nil _).trans (Payload.spaced_singleton v.2).symm
    | cons w values ih =>
      rw [List.map_cons, List.flatMap_cons, text_piece, List.append_assoc, ih w]
      simp only [Payload.spaced, List.map_cons, List.intercalate_cons_cons, List.append_assoc]

theorem found (h : Legible v) (gap : List Char) : (piece gap v).token.Found := by
  have hne : v.2.display ≠ [] := by
    intro hnil
    have hread := h.recognized
    rw [hnil] at hread
    exact h.solid (congrArg Grammar.Beginning.kind (Except.ok.inj hread)).symm
  have hrest : (Scanner.ofText v.2.display .strict).cursor.rest = [] ++ v.2.display := rfl
  obtain ⟨hitem, -⟩ := Scanner.next_of_gap hrest (List.forall_mem_nil _) hne h.recognized
  exact ⟨beq_eq_false_iff_ne.mpr h.solid, v.2.display, Scanner.mem_drain_of_next hitem⟩

theorem printable_pieces (h : ∀ v ∈ values, Legible v) : Printable (pieces values) where
  found := by
    intro p hp
    obtain ⟨v, hv, rfl | rfl⟩ := mem_pieces hp
    · exact (h v hv).found []
    · exact (h v hv).found [' ']
  blanks := by
    intro p hp c hc
    obtain ⟨v, -, rfl | rfl⟩ := mem_pieces hp
    · cases hc
    · rw [List.mem_singleton.mp hc]
      rfl
  apart := by
    intro p hp
    cases values with
    | nil => cases hp
    | cons v values =>
      obtain ⟨w, -, rfl⟩ := List.mem_map.mp hp
      exact List.cons_ne_nil ' ' []

theorem meaning_placed (place : Position) (pieces : List Piece) :
    (placed place pieces).map Token.meaning = pieces.map (·.token.meaning) := by
  induction pieces generalizing place with
  | nil => rfl
  | cons p pieces ih =>
    rw [placed, List.map_cons, List.map_cons, ih]
    rfl

theorem meaning_pieces (values : List (Kind × Payload)) : (pieces values).map (·.token.meaning) = values := by
  cases values with
  | nil => rfl
  | cons v values =>
    rw [pieces, List.map_cons, List.map_map]
    exact congrArg (v :: ·) (List.map_id values)

/-- A strict scanner drains the texts of legible values into tokens with these values. -/
theorem exists_drain (h : ∀ v ∈ values, Legible v) :
    ∃ tokens : List Token,
      (Scanner.ofText (Payload.spaced (values.map Prod.snd)) .strict).drain.1 = tokens.map .ok ∧
      tokens.map Token.meaning = values ++ [(.endOfInput, .text "")] := by
  have hrest : Payload.spaced (values.map Prod.snd) = (pieces values).flatMap Piece.text ++ [] := by
    rw [text_pieces, List.append_nil]
  have hdrain := Scanner.drain_of_printable (s := .ofText (Payload.spaced (values.map Prod.snd)) .strict)
    rfl hrest (printable_pieces h) (List.forall_mem_nil _)
  refine ⟨placed .start (pieces values) ++
    [Token.endOfInput (Position.start.afterAll ((pieces values).flatMap Piece.text ++ []))], ?_, ?_⟩
  · rw [hdrain, List.map_append]
    rfl
  · rw [List.map_append, meaning_placed, meaning_pieces]
    rfl

/-- Legible values are scanned back from their texts in either mode. -/
theorem exists_tokens (h : ∀ v ∈ values, Legible v) (mode : Mode) :
    ∃ tokens, (Scanner.ofText (Payload.spaced (values.map Prod.snd)) mode).tokens.1 = .ok tokens ∧
      tokens.map Token.meaning = values ++ [(.endOfInput, .text "")] := by
  obtain ⟨tokens, hstrict, hmeaning⟩ := exists_drain h
  refine ⟨tokens, ?_, hmeaning⟩
  have hdrain : (Scanner.ofText (Payload.spaced (values.map Prod.snd)) mode).drain.1 = tokens.map .ok := by
    cases mode with
    | strict => exact hstrict
    | lenient =>
      have hclosed : ∀ p, .error ⟨.unterminated, p⟩ ∉
          (Scanner.ofText (Payload.spaced (values.map Prod.snd)) .strict).drain.1 := by
        intro p hp
        rw [hstrict] at hp
        obtain ⟨t, -, ht⟩ := List.mem_map.mp hp
        cases ht
      exact (congrArg Prod.fst (Scanner.drain_relaxed rfl hclosed)).trans hstrict
  rw [Scanner.tokens_eq_collect, hdrain, Item.collect_map]

theorem exists_tokens_single (h : Legible v) (mode : Mode) :
    ∃ tokens, (Scanner.ofText v.2.display mode).tokens.1 = .ok tokens ∧
      tokens.map Token.meaning = [v, (.endOfInput, .text "")] := by
  obtain ⟨tokens, htokens, hmeaning⟩ := exists_tokens (List.forall_mem_singleton.mpr h) mode
  rw [List.map_singleton, Payload.spaced_singleton] at htokens
  exact ⟨tokens, htokens, hmeaning⟩

end Legible

namespace Token

variable {s : Scanner} {tokens others : List Token}

theorem meaning_of_isEnd {t : Token} (ht : .ok t ∈ s.drain.1) (hend : t.isEnd = true) :
    t.meaning = (.endOfInput, .text "") := by
  obtain ⟨text, b, hb, htoken⟩ := Scanner.recognized_of_mem_drain ht
  obtain ⟨lexeme, kind, payload⟩ := b
  rw [htoken] at hend ⊢
  obtain rfl : kind = .endOfInput := beq_iff_eq.mp hend
  cases Grammar.formed_of_recognize hb
  rfl

/-- The tokens that a scan finds are the end of the input and, unless there are doubles, legible ones
before it. -/
theorem exists_legible (htokens : s.tokens.1 = .ok tokens) (hkinds : ∀ t ∈ tokens, t.kind ≠ .float) :
    ∃ values : List (Kind × Payload), (∀ v ∈ values, Legible v) ∧
      tokens.map meaning = values ++ [(.endOfInput, .text "")] ∧
      valuesText tokens = Payload.spaced (values.map Prod.snd) := by
  have hdrain : s.drain.1 = tokens.map .ok := by
    rw [Scanner.tokens_eq_collect] at htokens
    exact s.drain_ended.eq_map_of_collect htokens
  have hmem : ∀ t ∈ tokens, .ok t ∈ s.drain.1 := by
    intro t ht
    rw [hdrain]
    exact List.mem_map_of_mem ht
  have hended : Item.Ended (tokens.map .ok) := by
    rw [← hdrain]
    exact s.drain_ended
  obtain ⟨before, t, rfl, hbefore, hend⟩ := hended.exists_end
  refine ⟨before.map meaning, ?_, ?_, ?_⟩
  · intro v hv
    obtain ⟨u, hu, rfl⟩ := List.mem_map.mp hv
    have hin : u ∈ before ++ [t] := List.mem_append_left _ hu
    obtain ⟨text, b, hb, htoken⟩ := Scanner.recognized_of_mem_drain (hmem u hin)
    have hsolid : u.kind ≠ .endOfInput := beq_eq_false_iff_ne.mp (hbefore u hu)
    have hfloat : u.kind ≠ .float := hkinds u hin
    rw [htoken] at hsolid hfloat ⊢
    exact Legible.of_recognize hb hsolid hfloat
  · rw [List.map_append, List.map_singleton,
      meaning_of_isEnd (hmem t (List.mem_append_right _ (List.mem_singleton_self t))) hend]
  · have hsolid : (before ++ [t]).filter (fun u => !u.isEnd) = before := by
      have hnone : [t].filter (fun u => !u.isEnd) = [] := List.filter_cons_of_neg (by simp [hend])
      have hall : before.filter (fun u => !u.isEnd) = before :=
        List.filter_eq_self.mpr fun u hu => by simp [hbefore u hu]
      rw [List.filter_append, hall, hnone, List.append_nil]
    rw [valuesText, hsolid, List.map_map]
    rfl

/-- The text of the values depends on what the tokens say only. -/
theorem valuesText_congr (h : tokens.map meaning = others.map meaning) :
    valuesText tokens = valuesText others := by
  have hvalues (tokens : List Token) : (tokens.filter fun t => !t.isEnd).map payload =
      ((tokens.map meaning).filter fun v => !(v.1 == .endOfInput)).map Prod.snd := by
    rw [List.filter_map, List.map_map]
    rfl
  rw [valuesText, valuesText, hvalues, hvalues, h]

end Token

/-- If a text is scanned to tokens without doubles, the text of their values is scanned in either mode to
tokens of the same kinds with the same values, and these have the same text again. Every integer of 64
bits and every character is scanned back from its text. -/
theorem values_scanned_back (other : Mode) :
    (∀ (source : List Char) (mode : Mode) (tokens : List Token),
      (Scanner.ofText source mode).tokens.1 = .ok tokens → (∀ t ∈ tokens, t.kind ≠ .float) →
        ∃ again, (Scanner.ofText (Token.valuesText tokens) other).tokens.1 = .ok again ∧
          again.map Token.meaning = tokens.map Token.meaning ∧
          Token.valuesText again = Token.valuesText tokens) ∧
      (∀ n : Int64, ∃ again, (Scanner.ofText (Payload.integer n).display other).tokens.1 = .ok again ∧
        again.map Token.meaning = [(.integer, .integer n), (.endOfInput, .text "")]) ∧
      ∀ c : Char, ∃ again, (Scanner.ofText (Payload.char c).display other).tokens.1 = .ok again ∧
        again.map Token.meaning = [(.character, .char c), (.endOfInput, .text "")] := by
  refine ⟨?_, ?_, ?_⟩
  · intro source mode tokens htokens hkinds
    obtain ⟨values, hlegible, hmeaning, htext⟩ := Token.exists_legible htokens hkinds
    obtain ⟨again, hagain, hsame⟩ := Legible.exists_tokens hlegible other
    rw [← htext] at hagain
    rw [← hmeaning] at hsame
    exact ⟨again, hagain, hsame, Token.valuesText_congr hsame⟩
  · intro n
    exact (Legible.integer n).exists_tokens_single other
  · intro c
    exact (Legible.char c).exists_tokens_single other

/-- A negative zero, leading zeros, a literal without its closing quote and one of a quote: the values
have shorter texts or others than the lexemes, and are scanned back in the strict mode. -/
theorem values_scanned_back_lenient :
    let source := "-0 007('\n\"if\t'''".toList
    let tokens : List Token := [
      ⟨.integer, "-0", .integer 0, ⟨0, 1, 1⟩⟩,
      ⟨.integer, "007", .integer 7, ⟨3, 1, 4⟩⟩,
      ⟨.punctuation .leftParen, "(", .text "(", ⟨6, 1, 7⟩⟩,
      ⟨.character, "'\n\"", .char '\n', ⟨7, 1, 8⟩⟩,
      ⟨.keyword .ifWord, "if", .text "if", ⟨10, 2, 2⟩⟩,
      ⟨.character, "'''", .char '\'', ⟨13, 2, 5⟩⟩,
      Token.endOfInput ⟨16, 2, 8⟩]
    (Scanner.ofText source .lenient).tokens.1 = .ok tokens ∧ (∀ t ∈ tokens, t.kind ≠ .float) ∧
      ∃ again, (Scanner.ofText "0 7 ( '\n' if '''".toList .strict).tokens.1 = .ok again ∧
        again.map Token.meaning = tokens.map Token.meaning := by
  intro source tokens
  have htokens : (Scanner.ofText source .lenient).tokens.1 = .ok tokens := by decide +kernel
  have hkinds : ∀ t ∈ tokens, t.kind ≠ .float := by decide
  obtain ⟨again, hagain, hsame, -⟩ :=
    (values_scanned_back .strict).1 source .lenient tokens htokens hkinds
  have htext : Token.valuesText tokens = "0 7 ( '\n' if '''".toList := by decide +kernel
  rw [htext] at hagain
  exact ⟨htokens, hkinds, again, hagain, hsame⟩

end Lexemes
