import Lexemes.Proofs.Final

namespace Lexemes

namespace Scanner

/-- The scanner that has done nothing but pass over blanks. -/
def pastBlanks (s : Scanner) : Scanner :=
  let cursor := (Step.exec Step.skipBlanks s.span).2.cursor
  { s with start := cursor, cursor := cursor }

/-- A scanner that is answered with an error and stays as it is. -/
def Fails (e : ScanError) (s : Scanner) : Prop := s.next = (.error e, s)

variable {s : Scanner} {e : ScanError}

theorem pastBlanks_eq (s : Scanner) :
    s.pastBlanks =
      { s with start := Step.afterBlanks s.cursor, cursor := Step.afterBlanks s.cursor } := by
  rw [pastBlanks, span, Step.exec_skipBlanks]
  rfl

/-- An error leaves the scanner behind the blanks, with all else as it was. -/
theorem next_of_error (h : s.next.1 = .error e) : s.next = (.error e, s.pastBlanks) := by
  have hstate : s.next.2 = s.pastBlanks := by
    rw [state_next, h, pastBlanks_eq]
    show Scanner.mk _ _ _ ((Step.afterBlanks s.cursor).advance 0) _ = _
    rw [Cursor.advance_zero]
    rfl
  rw [← h, ← hstate]

theorem position_of_error (h : s.next.1 = .error e) : e.position = s.pastBlanks.position := by
  have hplace : s.next.1.place = (Step.afterBlanks s.cursor).position := s.place_next
  rw [h] at hplace
  rw [pastBlanks_eq]
  exact hplace

/-- The step itself stops at the fault, some characters behind the place where the scanner is left. -/
theorem exec_scan_of_error (h : s.next.1 = .error e) :
    ∃ read, Step.exec (Step.scan s.mode) s.span =
      (.error (.fault e.fault), .reading s.pastBlanks.cursor read) := by
  have hfinds := Step.tokenAhead_finds s.mode (Step.afterBlanks s.cursor)
  rw [item_next] at h
  cases hr : Grammar.recognize s.mode (Step.afterBlanks s.cursor).rest with
  | ok b =>
    rw [hr] at h
    cases h
  | error fault =>
    rw [hr] at h hfinds
    obtain ⟨read, hread⟩ := hfinds
    obtain rfl : ⟨fault, _⟩ = e := Except.error.inj h
    refine ⟨read, ?_⟩
    rw [span, Step.exec_scan, hread, pastBlanks_eq]

theorem fails_pastBlanks (h : s.next.1 = .error e) : s.pastBlanks.Fails e := by
  have hfinal : s.next.1.isFinal = true := by rw [h]; rfl
  have hagain : s.next.2.next = s.next := next_next_of_final hfinal
  rw [next_of_error h] at hagain
  exact hagain

theorem Fails.stays (h : s.Fails e) : s.Stays (.error e) where
  isFinal := rfl
  next := h

end Scanner

namespace Session

variable {s : Session} {e : ScanError}

/-- A failing scanner answers each sort of request with its error, and the session stays as it is. -/
theorem perform_of_fails (h : s.scanner.Fails e) :
    s.perform .next = (.item (.error e), s) ∧
      s.perform .tokens = (.tokens (.error e), s) ∧
      ∀ n, s.perform (.items n) =
        (.items ((some (.error e) :: List.replicate n none).take n), s) :=
  perform_of_stays h.stays

/-- Nothing but going back to the start or to a scanner put aside gets a failing scanner to move. -/
theorem scanner_after_of_fails (h : s.scanner.Fails e) {later : List Order}
    (hlater : ∀ order ∈ later, order ≠ .reset ∧ order ≠ .restore) :
    (s.after later).scanner = s.scanner :=
  scanner_after_of_stays h.stays hlater

/-- If a request fails, then the session afterwards is the one before but for its scanner, which has
passed over blanks, to the place of the error, wherever behind that place the step has stopped. As long
as no order leads back to the start or to a scanner put aside, the scanner stays there, and every
request answers with the same error. -/
theorem failure_repeats (s : Session) (e : ScanError) (h : s.scanner.next.1 = .error e) :
    let t := (s.perform .next).2
    t = { s with scanner := s.scanner.pastBlanks } ∧
      e.position = t.scanner.position ∧
      (∃ read, Step.exec (Step.scan s.scanner.mode) s.scanner.span =
        (.error (.fault e.fault), .reading t.scanner.cursor read)) ∧
      ∀ later : List Order, (∀ order ∈ later, order ≠ .reset ∧ order ≠ .restore) →
        let u := t.after later
        u.scanner = t.scanner ∧
          u.perform .next = (.item (.error e), u) ∧
          u.perform .tokens = (.tokens (.error e), u) ∧
          ∀ n, u.perform (.items n) =
            (.items ((some (.error e) :: List.replicate n none).take n), u) := by
  intro t
  have ht : t = { s with scanner := s.scanner.pastBlanks } := by
    show { s with scanner := s.scanner.next.2 } = _
    rw [Scanner.next_of_error h]
  have hscanner : t.scanner = s.scanner.pastBlanks := congrArg Session.scanner ht
  have hfails : t.scanner.Fails e := by
    rw [hscanner]
    exact Scanner.fails_pastBlanks h
  rw [hscanner]
  refine ⟨ht, Scanner.position_of_error h, Scanner.exec_scan_of_error h, ?_⟩
  intro later hlater u
  have hkept : u.scanner = t.scanner := scanner_after_of_fails hfails hlater
  have hstays : u.scanner.Fails e := by
    rw [hkept]
    exact hfails
  rw [← hscanner]
  exact ⟨hkept, perform_of_fails hstays⟩

/-- A literal that the end of the text cuts off: the step has read its quote and the line feed behind it. -/
theorem failure_repeats_lineFeed :
    let s := (Session.ofText "a '\n".toList .strict).after [.next]
    let e : ScanError := ⟨.unterminated, ⟨2, 1, 3⟩⟩
    s.scanner.next.1 = .error e ∧
      (s.perform .next).2.scanner.position = ⟨2, 1, 3⟩ ∧
      (((s.perform .next).2.after [.items 3, .save, .tokens, .last]).perform (.items 2)).1 =
        .items [some (.error e), none] := by
  intro s e
  have hnext : s.scanner.next.1 = .error e := by decide
  obtain ⟨-, hplace, -, hagain⟩ := failure_repeats s e hnext
  obtain ⟨-, -, -, hitems⟩ := hagain [.items 3, .save, .tokens, .last] (by decide)
  exact ⟨hnext, hplace.symm, congrArg Prod.fst (hitems 2)⟩

end Session

end Lexemes
