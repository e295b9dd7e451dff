import Lexemes.Proofs.Quoted

namespace Lexemes

section Shown

open Json (Shown shown_cons shown_append shown_toDigits shown_ofInt)

variable {text : List Char}

theorem Text.shown_pad {filler : Char} (hfiller : 0x20 ≤ filler.toNat) (alignment : Alignment) (width : Nat)
    (longest? : Option Nat) (h : Shown text) : Shown (pad filler alignment width longest? text) := by
  have hfilling : ∀ n, Shown (List.replicate n filler) := Json.shown_replicate hfiller
  have hcut : Shown (longest?.elim text text.take) := by
    cases longest? with
    | none => exact h
    | some longest => exact fun c hc => h c (List.mem_of_mem_take hc)
  have hpad : pad filler alignment width longest? text =
      fill filler alignment width (longest?.elim text text.take) := by
    cases longest? <;> rfl
  rw [hpad]
  cases alignment with
  | left => exact shown_append hcut (hfilling _)
  | right => exact shown_append (hfilling _) hcut
  | center => exact shown_append (shown_append (hfilling _) hcut) (hfilling _)

theorem Layout.shown_positionalText (wholePoint : Bool) (d : Decimal) :
    Shown (positionalText wholePoint d) := by
  have hdigits : Shown (Nat.toDigits 10 d.coefficient) := shown_toDigits _
  have hzeros : ∀ n, Shown (List.replicate n '0') := Json.shown_replicate (by decide)
  unfold positionalText
  dsimp only
  split
  · have hend : Shown (if wholePoint then ['.', '0'] else []) := by cases wholePoint <;> decide
    exact shown_append (shown_append hdigits (hzeros _)) hend
  split
  · apply shown_append
    · exact fun c hc => hdigits c (List.mem_of_mem_take hc)
    · exact shown_cons (by decide) fun c hc => hdigits c (List.mem_of_mem_drop hc)
  · exact shown_cons (by decide) (shown_cons (by decide) (shown_append (hzeros _) hdigits))

theorem Binary64.shown_display (x : Binary64) : Shown x.display := by
  unfold display
  split
  · decide
  split
  · have hsign : Shown (if x.negative then ['-'] else []) := by cases x.negative <;> decide
    exact shown_append hsign (Layout.shown_positionalText false _)
  split <;> decide

theorem Grammar.shown_word (h : Word text) : Shown text := by
  have hpart (c : Char) (hc : Letter c ∨ Digit c ∨ c = '_') : 0x20 ≤ c.toNat := by
    rcases hc with (⟨hcapital, -⟩ | ⟨hsmall, -⟩) | ⟨hdigit, -⟩ | rfl
    · exact Json.code_le (by decide) hcapital
    · exact Json.code_le (by decide) hsmall
    · exact Json.code_le (by decide) hdigit
    · decide
  cases text with
  | nil => exact absurd h id
  | cons c tail => exact shown_cons (hpart c (Or.inl h.1)) fun d hd => hpart d (h.2 d hd)

/-- A payload that is found is written without control characters, unless it is a character. -/
theorem Grammar.shown_display {mode : Mode} {b : Beginning} (hb : recognize mode text = .ok b) :
    (∃ c, b.payload = .char c) ∨ Shown b.payload.display := by
  have hreads : Reads mode text (.ok b) := reads_iff.mpr hb.symm
  cases hreads with
  | endOfInput => exact Or.inr (List.forall_mem_nil _)
  | punctuation mark rest => exact Or.inr (by cases mark <;> decide)
  | @word c rest found hc hfound =>
    right
    show Shown (String.ofList found).toList
    rw [String.toList_ofList]
    exact shown_word hfound.mem
  | number hc hfound hkind hvalue =>
    right
    rcases exists_of_number? hvalue with ⟨-, n, rfl⟩ | ⟨-, x, rfl⟩
    · exact shown_ofInt _
    · exact x.shown_display
  | @character c rest hclosed => exact Or.inl ⟨c, rfl⟩

end Shown

namespace CommandLine

/-- What stands before the value in a plain line. -/
def plainColumns (t : Token) : List Char :=
  [' ', ' '] ++ Text.pad ' ' .right 4 none (Numeral.ofNat t.position.line) ++
    ':' :: Text.pad ' ' .left 3 none (Numeral.ofNat t.position.column) ++
    ' ' :: Text.pad ' ' .left 18 none t.kind.name.toList ++ [' ']

/-- The lines that the plain line of a token takes: two for a literal of a line feed, the second one with
its closing quote alone. -/
def plainPieces (t : Token) : List (List Char) :=
  if t.payload = .char '\n' then [plainColumns t ++ ['\''], ['\'']] else [plainLine t]

variable {t : Token} {tokens : List Token}

theorem plainLine_eq (t : Token) : plainLine t = plainColumns t ++ t.payload.display := by
  simp only [plainLine, plainColumns, List.append_assoc, List.cons_append, List.nil_append]

theorem shown_plainColumns (t : Token) : Json.Shown (plainColumns t) := by
  have hspace : 0x20 ≤ ' '.toNat := by decide
  have hline := Text.shown_pad hspace .right 4 none (Json.shown_toDigits t.position.line)
  have hcolumn := Text.shown_pad hspace .left 3 none (Json.shown_toDigits t.position.column)
  have hname := Text.shown_pad hspace .left 18 none t.kind.shown_name
  exact Json.shown_append
    (Json.shown_append
      (Json.shown_append (Json.shown_append (by decide) hline) (Json.shown_cons (by decide) hcolumn))
      (Json.shown_cons hspace hname))
    (by decide)

theorem plainPieces_flatMap (t : Token) :
    (plainPieces t).flatMap (· ++ ['\n']) = plainLine t ++ ['\n'] := by
  rw [plainPieces]
  split
  next hfeed =>
    rw [plainLine_eq, hfeed]
    simp only [Payload.display, List.flatMap_cons, List.flatMap_nil, List.append_assoc, List.cons_append,
      List.nil_append, List.append_nil]
  next => exact List.append_nil _

/-- The text of a value that is found has a line feed in it only if the value is that character. -/
theorem feed_mem_display_iff {s : Scanner} (ht : .ok t ∈ s.drain.1) :
    '\n' ∈ t.payload.display ↔ t.payload = .char '\n' := by
  obtain ⟨text, b, hb, htoken⟩ := Scanner.recognized_of_mem_drain ht
  have hpayload : t.payload = b.payload := congrArg Token.payload htoken
  rw [hpayload]
  rcases Grammar.shown_display hb with ⟨c, hc⟩ | hshown
  · rw [hc]
    simp [Payload.display, eq_comm]
  · refine iff_of_false hshown.not_mem ?_
    intro hfeed
    rw [hfeed] at hshown
    exact absurd hshown (by decide)

theorem feed_not_mem_plainPieces {s : Scanner} (ht : .ok t ∈ s.drain.1) :
    ∀ piece ∈ plainPieces t, '\n' ∉ piece := by
  intro piece hpiece
  rw [plainPieces] at hpiece
  split at hpiece
  next =>
    rcases List.mem_pair.mp hpiece with rfl | rfl
    · exact (Json.shown_append (shown_plainColumns t) (by decide)).not_mem
    · decide
  next hfeed =>
    rw [List.mem_singleton.mp hpiece, plainLine_eq]
    intro hmem
    rcases List.mem_append.mp hmem with hcolumns | hdisplay
    · exact (shown_plainColumns t).not_mem hcolumns
    · exact hfeed ((feed_mem_display_iff ht).mp hdisplay)

theorem length_flatMap_plainPieces (tokens : List Token) :
    (tokens.flatMap plainPieces).length =
      tokens.length + tokens.countP (fun t => t.payload = .char '\n') := by
  induction tokens with
  | nil => rfl
  | cons t tokens ih =>
    rw [List.flatMap_cons, List.length_append, ih, List.length_cons, plainPieces]
    by_cases hfeed : t.payload = .char '\n'
    · rw [if_pos hfeed, List.countP_cons_of_pos (by simpa using hfeed)]
      simp only [List.length_cons, List.length_nil]
      omega
    · rw [if_neg hfeed, List.countP_cons_of_neg (by simpa using hfeed)]
      simp only [List.length_cons, List.length_nil]
      omega

theorem flatMap_plainPieces_of_ne (h : ∀ t ∈ tokens, t.payload ≠ .char '\n') :
    tokens.flatMap plainPieces = tokens.map plainLine := by
  induction tokens with
  | nil => rfl
  | cons t tokens ih =>
    obtain ⟨ht, htokens⟩ := List.forall_mem_cons.mp h
    rw [List.flatMap_cons, ih htokens, plainPieces, if_neg ht]
    rfl

theorem count_lines {lines : List (List Char)} (h : ∀ line ∈ lines, '\n' ∉ line) :
    (lines.flatMap (· ++ ['\n'])).count '\n' = lines.length := by
  induction lines with
  | nil => rfl
  | cons line lines ih =>
    obtain ⟨hline, hlines⟩ := List.forall_mem_cons.mp h
    rw [List.flatMap_cons, List.count_append, List.count_append, ih hlines, List.count_eq_zero.mpr hline,
      List.length_cons, List.count_singleton_self]
    omega

theorem run_plain {arguments : List String} (hplain : jsonFlag ∉ arguments) (input : String) :
    run arguments input.toUTF8 =
      listText .plain (listedScanner arguments input).mode (listedText arguments input) := by
  rw [run_eq, if_neg hplain]
  rfl

/-- The end of the input has no line, and an error is not written to the output. -/
theorem output_plain {source : List Char} {mode : Mode} {final : Item}
    (hdrain : (Scanner.ofText source mode).drain.1 = tokens.map .ok ++ [final])
    (htokens : ∀ t ∈ tokens, t.isEnd = false) (hfinal : final.isFinal = true) :
    (listText .plain mode source).output = tokens.flatMap (plainLine · ++ ['\n']) := by
  have hentries : tokens.flatMap Format.plain.entry = tokens.flatMap (plainLine · ++ ['\n']) := by
    apply List.flatMap_congr
    intro t ht
    exact if_neg (by simp [htokens t ht])
  rw [← hentries]
  cases final with
  | ok t =>
    have hnone : Format.plain.entry t = [] := if_pos hfinal
    rw [listText, listTextHiding_of_end hdrain, hnone, List.append_nil]
  | error e => rw [listText, listTextHiding_of_error hdrain]

/-- The output of a plain run has a line for each token that its source drains to before its last item,
and one more for each literal of a line feed among them. Exactly if there is none, the output is cut at
its line feeds into the plain lines of the tokens, one by one. -/
theorem plain_output_lines (arguments : List String) (input : String) (hplain : jsonFlag ∉ arguments) :
    let output := (run arguments input.toUTF8).output
    ∃ (tokens : List Token) (final : Item),
      (listedScanner arguments input).drain.1 = tokens.map .ok ++ [final] ∧ final.isFinal = true ∧
        (∀ t ∈ tokens, t.isEnd = false) ∧
        output = tokens.flatMap (plainLine · ++ ['\n']) ∧
        output.count '\n' = tokens.length + tokens.countP (fun t => t.payload = .char '\n') ∧
        output.splitOn '\n' = tokens.flatMap plainPieces ++ [[]] ∧
        (output.splitOn '\n' = tokens.map plainLine ++ [[]] ↔ ∀ t ∈ tokens, t.payload ≠ .char '\n') := by
  intro output
  obtain ⟨tokens, final, hdrain, htokens, hfinal⟩ := (listedScanner arguments input).drain_ended.exists_eq
  have houtput : output = tokens.flatMap (plainLine · ++ ['\n']) := by
    show (run arguments input.toUTF8).output = _
    rw [run_plain hplain]
    exact output_plain hdrain htokens hfinal
  have hpieces : output = (tokens.flatMap plainPieces).flatMap (· ++ ['\n']) := by
    rw [houtput, List.flatMap_assoc]
    simp only [plainPieces_flatMap]
  have hbroken : ∀ piece ∈ tokens.flatMap plainPieces, '\n' ∉ piece := by
    intro piece hpiece
    obtain ⟨t, ht, hmem⟩ := List.mem_flatMap.mp hpiece
    have hitem : .ok t ∈ (listedScanner arguments input).drain.1 := by
      rw [hdrain]
      exact List.mem_append_left _ (List.mem_map_of_mem ht)
    exact feed_not_mem_plainPieces hitem piece hmem
  have hsplit : output.splitOn '\n' = tokens.flatMap plainPieces ++ [[]] := by
    rw [hpieces, Json.splitOn_lines hbroken]
  refine ⟨tokens, final, hdrain, hfinal, htokens, houtput, ?_, hsplit, ?_⟩
  · rw [hpieces, count_lines hbroken, length_flatMap_plainPieces]
  · rw [hsplit, List.append_cancel_right_eq]
    constructor
    · intro hlines t ht hfeed
      have hlength := congrArg List.length hlines
      rw [length_flatMap_plainPieces, List.length_map] at hlength
      have hnone : tokens.countP (fun t => t.payload = .char '\n') = 0 := by omega
      exact List.countP_eq_zero.mp hnone t ht (decide_eq_true hfeed)
    · exact flatMap_plainPieces_of_ne

/-- A literal of a line feed and a word. -/
def feedAndWord : List Token := [
  ⟨.character, "'\n'", .char '\n', ⟨0, 1, 1⟩⟩,
  ⟨.identifier, "x", .text "x", ⟨4, 2, 3⟩⟩]

theorem drain_feedAndWord :
    (listedScanner ["'\n' x"] "").drain.1 = feedAndWord.map .ok ++ [.ok (Token.endOfInput ⟨5, 2, 4⟩)] := by
  decide +kernel

/-- The two tokens make three lines. -/
theorem plain_output_lines_feedAndWord :
    jsonFlag ∉ ["'\n' x"] ∧
      (run ["'\n' x"] "".toUTF8).output.splitOn '\n' =
        ["     1:1   CHARACTER          '".toList, ['\''], "     2:3   IDENTIFIER         x".toList, []] := by
  have hplain : jsonFlag ∉ ["'\n' x"] := by decide
  obtain ⟨tokens, final, hdrain, -, -, -, -, hsplit, -⟩ := plain_output_lines ["'\n' x"] "" hplain
  obtain ⟨hitems, -⟩ := List.append_inj' (hdrain.symm.trans drain_feedAndWord) rfl
  have htokens : tokens = feedAndWord := List.map_injective_iff.mpr (fun _ _ => Except.ok.inj) hitems
  refine ⟨hplain, ?_⟩
  rw [hsplit, htokens]
  decide +kernel

/-- So it is not true of every plain run that there are as many line feeds in its output as tokens before
the last item. -/
theorem plain_output_lines_broken :
    ¬∀ (arguments : List String) (input : String) (tokens : List Token) (final : Item),
      jsonFlag ∉ arguments → (listedScanner arguments input).drain.1 = tokens.map .ok ++ [final] →
        (run arguments input.toUTF8).output.count '\n' = tokens.length := by
  intro h
  have hcount := h ["'\n' x"] "" feedAndWord _ (by decide) drain_feedAndWord
  exact absurd hcount (by decide +kernel)

end CommandLine

end Lexemes
