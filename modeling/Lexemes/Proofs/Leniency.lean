import Lexemes.Proofs.Reprint

namespace Lexemes

namespace Grammar

variable {text : List Char}

/-- The mode matters only where a strict reading misses the end of a literal. -/
theorem recognize_lenient (h : recognize .strict text ≠ .error .unterminated) :
    recognize .lenient text = recognize .strict text := by
  apply recognize_of_reads
  have hreads : Reads .strict text (recognize .strict text) := reads_recognize .strict text
  generalize recognize .strict text = outcome at h hreads ⊢
  cases hreads with
  | endOfInput => exact .endOfInput
  | punctuation hmark rest => exact .punctuation hmark rest
  | word hc hfound => exact .word hc hfound
  | number hc hfound hkind hvalue => exact .number hc hfound hkind hvalue
  | malformed hc hfound hvalue => exact .malformed hc hfound hvalue
  | @character c rest hclosed =>
    have hlong : Closed .lenient ('\'' :: c :: rest) := Nat.le_add_left 2 rest.length
    exact .character hlong
  | unterminated hopen => exact absurd rfl h
  | unknown hmark hletter hnumber hquote => exact .unknown hmark hletter hnumber hquote

/-- Only a literal has a missing end, so the text begins with its quote. -/
theorem quote_of_unterminated {mode : Mode} (h : recognize mode text = .error .unterminated) :
    ∃ rest, text = '\'' :: rest ∧ ¬Closed mode ('\'' :: rest) := by
  have hreads : Reads mode text (recognize mode text) := reads_recognize mode text
  rw [h] at hreads
  cases hreads with
  | @unterminated rest hopen => exact ⟨rest, rfl, hopen⟩

/-- In the lenient mode a literal has no end only if its quote ends the text. -/
theorem eq_quote_of_unterminated (h : recognize .lenient text = .error .unterminated) :
    text = ['\''] := by
  obtain ⟨rest, rfl, hopen⟩ := quote_of_unterminated h
  cases rest with
  | nil => rfl
  | cons c rest => exact absurd (Nat.le_add_left 2 rest.length) hopen

/-- A lenient reading of a literal takes the character behind the quote, and one more if there is
one. -/
theorem recognize_lenient_quote (c : Char) (rest : List Char) :
    recognize .lenient ('\'' :: c :: rest) =
      .ok ⟨('\'' :: c :: rest).take 3, .character, .char c⟩ := by
  have hlong : Closed .lenient ('\'' :: c :: rest) := Nat.le_add_left 2 rest.length
  exact recognize_of_reads (.character hlong)

/-- Whatever the mode was that a lexeme was read in, the lenient mode reads it again. -/
theorem recognize_lenient_lexeme {mode : Mode} {b : Beginning} (h : recognize mode text = .ok b) :
    recognize .lenient b.lexeme = .ok b := by
  cases text with
  | nil =>
    cases h
    rfl
  | cons first rest =>
    have hstrict (hb : recognize .strict (first :: rest) = .ok b) :
        recognize .lenient b.lexeme = .ok b := by
      have hagain : recognize .strict b.lexeme = .ok b := recognize_lexeme hb (List.cons_ne_nil _ _)
      have hclosed : recognize .strict b.lexeme ≠ .error .unterminated := by
        rw [hagain]
        intro hopen
        cases hopen
      rw [recognize_lenient hclosed, hagain]
    cases mode with
    | strict => exact hstrict h
    | lenient =>
      by_cases hopen : recognize .strict (first :: rest) = .error .unterminated
      · -- Only the lenient mode reads this literal, and so it does with the literal alone.
        obtain ⟨tail, htext, -⟩ := quote_of_unterminated hopen
        rw [htext] at h
        cases tail with
        | nil => cases h
        | cons c tail =>
          rw [recognize_lenient_quote] at h
          obtain rfl := Except.ok.inj h
          cases tail with
          | nil => rfl
          | cons close tail => rfl
      · exact hstrict ((recognize_lenient hopen).symm.trans h)

end Grammar

namespace Scanner

/-- Any two tokens with the same lexeme, from any two scanners, are of the same kind and have the same
payload. -/
theorem eq_of_lexeme_eq {s u : Scanner} {t v : Token} (ht : .ok t ∈ s.drain.1) (hv : .ok v ∈ u.drain.1)
    (hlexeme : t.lexeme = v.lexeme) : t.kind = v.kind ∧ t.payload = v.payload := by
  obtain ⟨text, b, hb, htoken⟩ := recognized_of_mem_drain ht
  obtain ⟨other, d, hd, hother⟩ := recognized_of_mem_drain hv
  have hsame : b.lexeme = d.lexeme := by
    rw [htoken, hother] at hlexeme
    exact String.ofList_injective hlexeme
  have hagain : Grammar.recognize .lenient b.lexeme = .ok b := Grammar.recognize_lenient_lexeme hb
  rw [hsame, Grammar.recognize_lenient_lexeme hd] at hagain
  obtain rfl := Except.ok.inj hagain
  rw [htoken, hother]
  exact ⟨rfl, rfl⟩

/-- The same scanner in the lenient mode. -/
def relaxed (s : Scanner) : Scanner := { s with mode := .lenient }

variable {s : Scanner} {source : List Char} {p : Position}

theorem answer_relaxed (s : Scanner) (start : Cursor) (outcome : Except Fault Grammar.Beginning) :
    s.relaxed.answer start outcome =
      ((s.answer start outcome).1, (s.answer start outcome).2.relaxed) := by
  cases outcome <;> rfl

/-- A text in which both modes find the same gives the same answer in both. -/
theorem next_relaxed
    (h : Grammar.recognize .lenient (Step.afterBlanks s.cursor).rest =
      Grammar.recognize s.mode (Step.afterBlanks s.cursor).rest) :
    s.relaxed.next = (s.next.1, s.next.2.relaxed) := by
  rw [next_eq s.relaxed, next_eq s, ← h]
  exact s.answer_relaxed _ _

/-- A strict scanner that does not miss the end of a literal answers as the lenient one does. -/
theorem next_relaxed_of_ne (hmode : s.mode = .strict) (h : ∀ p, s.next.1 ≠ .error ⟨.unterminated, p⟩) :
    s.relaxed.next = (s.next.1, s.next.2.relaxed) := by
  apply next_relaxed
  rw [hmode]
  apply Grammar.recognize_lenient
  intro hopen
  apply h (Step.afterBlanks s.cursor).position
  rw [item_next, hmode, hopen]
  rfl

/-- Both modes drain alike what has no missing end of a literal in it. -/
theorem drain_relaxed (hmode : s.mode = .strict) (h : ∀ p, .error ⟨.unterminated, p⟩ ∉ s.drain.1) :
    s.relaxed.drain = (s.drain.1, s.drain.2.relaxed) := by
  have hhead {u : Scanner} (hu : ∀ p, .error ⟨.unterminated, p⟩ ∉ u.drain.1) (p : Position) :
      u.next.1 ≠ .error ⟨.unterminated, p⟩ := by
    intro hp
    exact hu p (mem_drain_of_next hp)
  induction s using pull_induction with
  | hfinal s hs =>
    have hstep := next_relaxed_of_ne hmode (hhead h)
    have hthere : s.relaxed.next.1.isFinal = true := by rw [hstep, hs]
    rw [drain_of_final hs, drain_of_final hthere, hstep]
  | hmore s hs ih =>
    have hstep := next_relaxed_of_ne hmode (hhead h)
    have hthere : s.relaxed.next.1.isFinal = false := by rw [hstep, hs]
    rw [drain_of_more hs] at h
    have hrest := ih ((mode_next s).trans hmode) fun p hp => h p (List.mem_cons_of_mem _ hp)
    rw [drain_of_more hs, drain_of_more hthere, hstep, hrest]

/-- Both modes read the same tokens up to the scanner that gives the strict mode its final answer. -/
theorem exists_drain_relaxed (hmode : s.mode = .strict) :
    ∃ tokens : List Token,
      s.drain = (tokens.map .ok ++ [(s.pulled tokens.length).next.1], (s.pulled tokens.length).next.2) ∧
        s.relaxed.drain =
          (tokens.map .ok ++ (s.pulled tokens.length).relaxed.drain.1,
            (s.pulled tokens.length).relaxed.drain.2) ∧
        (s.pulled tokens.length).next.1.isFinal = true := by
  induction s using pull_induction with
  | hfinal s h => exact ⟨[], drain_of_final h, rfl, h⟩
  | hmore s h ih =>
    obtain ⟨tokens, hstrict, hlenient, hfinal⟩ := ih ((mode_next s).trans hmode)
    cases ht : s.next.1 with
    | error e =>
      rw [ht] at h
      cases h
    | ok t =>
      have hstep : s.relaxed.next = (s.next.1, s.next.2.relaxed) := by
        apply next_relaxed_of_ne hmode
        intro p hp
        rw [ht] at hp
        cases hp
      have hmore : s.relaxed.next.1.isFinal = false := by rw [hstep, h]
      refine ⟨t :: tokens, ?_, ?_, hfinal⟩
      · rw [drain_of_more h, hstrict, ht]
        rfl
      · rw [drain_of_more hmore, hstep, hlenient, ht]
        rfl

theorem rest_of_unterminated (hsource : s.cursor.Within source)
    (h : s.next.1 = .error ⟨.unterminated, p⟩) :
    p = (Step.afterBlanks s.cursor).position ∧
      Grammar.recognize s.mode (source.drop p.offset) = .error .unterminated := by
  rw [item_next] at h
  cases hr : Grammar.recognize s.mode (Step.afterBlanks s.cursor).rest with
  | ok b =>
    rw [hr] at h
    cases h
  | error fault =>
    rw [hr] at h
    obtain ⟨rfl, rfl⟩ := ScanError.mk.inj (Except.error.inj h)
    have hrest := (Step.within_afterBlanks hsource).rest_eq
    exact ⟨rfl, by rw [← hrest, hr]⟩

/-- A lenient scanner misses the end of a literal only at the last character of its text. -/
theorem offset_of_unterminated (hmode : s.mode = .lenient) (hsource : s.cursor.Within source)
    (h : s.next.1 = .error ⟨.unterminated, p⟩) : p.offset + 1 = source.length := by
  obtain ⟨-, hopen⟩ := rest_of_unterminated hsource h
  rw [hmode] at hopen
  have hquote : source.drop p.offset = ['\''] := Grammar.eq_quote_of_unterminated hopen
  have hlength : source.length - p.offset = 1 := by rw [← List.length_drop, hquote]; rfl
  omega

/-- Where a strict scanner misses the end of a literal, the lenient one misses it too if the quote ends
the text, and reads the literal otherwise. -/
theorem next_relaxed_of_unterminated (hmode : s.mode = .strict) (hsource : s.cursor.Within source)
    (h : s.next.1 = .error ⟨.unterminated, p⟩) :
    (p.offset + 1 = source.length → s.relaxed.next = (s.next.1, s.next.2.relaxed)) ∧
      (p.offset + 1 ≠ source.length →
        ∃ c, source[p.offset + 1]? = some c ∧
          s.relaxed.next.1 =
            .ok ⟨.character, String.ofList (source.extract p.offset (min (p.offset + 3) source.length)),
              .char c, p⟩) := by
  obtain ⟨hplace, hopen⟩ := rest_of_unterminated hsource h
  rw [hmode] at hopen
  obtain ⟨rest, htext, -⟩ := Grammar.quote_of_unterminated hopen
  have hrest : (Step.afterBlanks s.cursor).rest = '\'' :: rest := by
    rw [(Step.within_afterBlanks hsource).rest_eq, ← hplace, htext]
  have hlength : source.length - p.offset = rest.length + 1 := by
    rw [← List.length_drop, htext, List.length_cons]
  constructor
  · intro hlast
    obtain rfl : rest = [] := List.eq_nil_of_length_eq_zero (by omega)
    apply next_relaxed
    rw [hrest, hmode]
    rfl
  · intro hlast
    cases rest with
    | nil =>
      simp only [List.length_nil] at hlength
      omega
    | cons c rest =>
      have hpayload : source[p.offset + 1]? = some c := by
        rw [← List.getElem?_drop, htext]
        rfl
      have hlexeme : source.extract p.offset (min (p.offset + 3) source.length) =
          ('\'' :: c :: rest).take 3 := by
        rw [List.extract, htext, List.take_eq_take_iff, List.length_cons, List.length_cons]
        simp only [List.length_cons] at hlength
        omega
      refine ⟨c, hpayload, ?_⟩
      rw [item_next]
      show Item.ofOutcome (Step.afterBlanks s.cursor).position
        (Grammar.recognize .lenient (Step.afterBlanks s.cursor).rest) = _
      rw [hrest, Grammar.recognize_lenient_quote, hlexeme, ← hplace]
      rfl

/-- A lenient reading finds the tokens that a strict one finds up to its final item. Unless that is a
missing end of a literal, it is also the final item of the lenient reading, and the two scanners end
alike. A literal whose end is missing is read as one, with whatever stands in place of its closing
quote, or has no end either if its opening quote is the last character. So nothing else ever is a
missing end to a lenient scanner, whatever it is asked for. -/
theorem drain_lenient_extends_strict (source : List Char) :
    ∃ (tokens : List Token) (final : Item) (later : List Item),
      (ofText source .strict).drain.1 = tokens.map .ok ++ [final] ∧
        (ofText source .lenient).drain.1 = tokens.map .ok ++ later ∧
        ((∀ p, final ≠ .error ⟨.unterminated, p⟩) →
          later = [final] ∧
            (ofText source .lenient).drain.2 = (ofText source .strict).drain.2.relaxed) ∧
        (∀ p, final = .error ⟨.unterminated, p⟩ →
          (p.offset + 1 = source.length → later = [final]) ∧
            (p.offset + 1 ≠ source.length →
              ∃ c, source[p.offset + 1]? = some c ∧
                later.head? = some (.ok ⟨.character,
                  String.ofList (source.extract p.offset (min (p.offset + 3) source.length)),
                  .char c, p⟩))) ∧
        ∀ orders order p,
          .error ⟨.unterminated, p⟩ ∈
              (((Session.ofText source .lenient).after orders).perform order).1.handedOut →
            p.offset + 1 = source.length := by
  obtain ⟨tokens, hstrict, hlenient, hfinal⟩ := exists_drain_relaxed (s := ofText source .strict) rfl
  have hwithin := within_pulled source .strict tokens.length
  have hmode : ((ofText source .strict).pulled tokens.length).mode = .strict := mode_pulled _ _
  generalize (ofText source .strict).pulled tokens.length = u at hstrict hlenient hfinal hwithin hmode
  have hends (hsame : u.relaxed.next = (u.next.1, u.next.2.relaxed)) :
      u.relaxed.drain = ([u.next.1], u.next.2.relaxed) := by
    have hthere : u.relaxed.next.1.isFinal = true := by rw [hsame, hfinal]
    rw [drain_of_final hthere, hsame]
  refine ⟨tokens, u.next.1, u.relaxed.drain.1, congrArg Prod.fst hstrict, congrArg Prod.fst hlenient,
    ?_, ?_, ?_⟩
  · intro hclosed
    have hdrain := hends (next_relaxed_of_ne hmode hclosed)
    refine ⟨congrArg Prod.fst hdrain, ?_⟩
    rw [hstrict]
    exact (congrArg Prod.snd hlenient).trans (congrArg Prod.snd hdrain)
  · intro p hopen
    obtain ⟨hlast, hmore⟩ := next_relaxed_of_unterminated hmode hwithin hopen
    constructor
    · intro hoffset
      exact congrArg Prod.fst (hends (hlast hoffset))
    · intro hoffset
      obtain ⟨c, hc, hitem⟩ := hmore hoffset
      exact ⟨c, hc, by rw [head_drain, hitem]⟩
  · intro orders order p hp
    obtain ⟨q, hq⟩ := Recording.after_ofText source .lenient orders
    rw [hq, Recording.perform_session] at hp
    obtain ⟨n, hn⟩ := exists_pulled_of_mem (Recording.mem_of_mem_perform hp)
    exact offset_of_unterminated (mode_pulled _ n) (within_pulled source .lenient n) hn

end Scanner

end Lexemes
