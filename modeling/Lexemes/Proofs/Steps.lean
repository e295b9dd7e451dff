import Lexemes.Proofs.Replay

namespace Lexemes

namespace Scanner

variable {s : Scanner}

theorem next_eq_ofOutcome (s : Scanner) :
    s.next.1 = Item.ofOutcome (s.position.afterAll (s.cursor.rest.takeWhile Text.isBlank))
      (Grammar.recognize s.mode (s.cursor.rest.dropWhile Text.isBlank)) := by
  rw [item_next, ← Step.rest_afterBlanks, position, ← Step.position_afterBlanks]

/-- The end of the input is read exactly where nothing but blanks is left. -/
theorem endOfInput_next_iff (s : Scanner) :
    (∃ t, s.next.1 = .ok t ∧ t.kind = .endOfInput) ↔ s.cursor.rest.dropWhile Text.isBlank = [] := by
  rw [← Step.rest_afterBlanks]
  constructor
  · rintro ⟨t, ht, hkind⟩
    cases hrest : (Step.afterBlanks s.cursor).rest with
    | nil => rfl
    | cons first rest =>
      have hend := (token_of_cons hrest ht).1
      exact absurd hkind (beq_eq_false_iff_ne.mp hend)
  · intro hrest
    exact ⟨_, next_of_nil hrest, rfl⟩

end Scanner

namespace Recording

/-- After any orders a step passes over the longest run of blanks, and the one outcome that the
grammar has for the text behind it is the answer, at the place behind the blanks. The cursor then
stands behind what was read. -/
theorem session_step_reads_grammar (source : List Char) (mode : Mode) (orders : List Session.Order) :
    let s := ((Session.ofText source mode).after orders).scanner
    ∃ gap text outcome,
      source.drop s.position.offset = gap ++ text ∧
        Grammar.Longest (fun run => ∀ c ∈ run, Grammar.Blank c) (source.drop s.position.offset) gap ∧
        (∀ other, Grammar.Reads mode text other ↔ other = outcome) ∧
        s.next.1 = Item.ofOutcome (s.position.afterAll gap) outcome ∧
        s.next.2.position = s.next.1.after ∧
        ((∃ t, s.next.1 = .ok t ∧ t.kind = .endOfInput) ↔ text = []) := by
  intro s
  obtain ⟨p, hp⟩ := after_ofText source mode orders
  have hs : s = (Scanner.ofText source mode).pulled p.count := congrArg Session.scanner hp
  have hrest : s.cursor.rest = source.drop s.position.offset := by
    rw [hs]
    exact (Scanner.within_pulled source mode p.count).rest_eq
  have hmode : s.mode = mode := by
    rw [hs]
    exact Scanner.mode_pulled _ _
  rw [← hrest]
  refine ⟨_, _, Grammar.recognize mode (s.cursor.rest.dropWhile Text.isBlank),
    List.takeWhile_append_dropWhile.symm, Grammar.longest_blanks s.cursor.rest,
    fun other => Grammar.reads_iff, ?_, s.position_next, s.endOfInput_next_iff⟩
  rw [← hmode]
  exact s.next_eq_ofOutcome

end Recording

end Lexemes
