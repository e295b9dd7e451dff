import Lexemes.Proofs.Replay

namespace Lexemes

namespace Scanner

/-- A scanner that answers with a final item and stays as it is. -/
structure Stays (item : Item) (s : Scanner) : Prop where
  isFinal : item.isFinal = true
  next : s.next = (item, s)

variable {s : Scanner} {item : Item}

theorem stays_next (h : s.next.1.isFinal = true) : s.next.2.Stays s.next.1 where
  isFinal := h
  next := next_next_of_final h

/-- The scanner that is left when the final item has been drained stays at it. -/
theorem stays_drain (hitem : item ∈ s.drain.1) (hfinal : item.isFinal = true) :
    s.drain.2.Stays item := by
  induction s using pull_induction with
  | hfinal s h =>
    rw [drain_of_final h] at hitem ⊢
    rw [List.mem_singleton.mp hitem]
    exact stays_next h
  | hmore s h ih =>
    rw [drain_of_more h] at hitem ⊢
    rcases List.mem_cons.mp hitem with rfl | hlater
    · exact absurd (h.symm.trans hfinal) Bool.noConfusion
    · exact ih hlater

theorem tokens_eq_collect (s : Scanner) : s.tokens = (Item.collect s.drain.1, s.drain.2) := by
  rw [tokens_eq, pulled_length_drain]

namespace Stays

variable (h : s.Stays item)
include h

theorem drain : s.drain = ([item], s) := by
  have hfinal : s.next.1.isFinal = true := by rw [h.next, h.isFinal]
  rw [drain_of_final hfinal, h.next]

theorem tokens : s.tokens = (Item.collect [item], s) := by
  rw [tokens_eq_collect, h.drain]

theorem items (n : Nat) :
    ((Items.ofScanner s).take n).1 = (some item :: List.replicate n none).take n ∧
      ((Items.ofScanner s).take n).2.scanner = s := by
  cases n with
  | zero => exact ⟨rfl, rfl⟩
  | succ n =>
    have hdone : (Items.mk s.next.2 s.next.1.isFinal).take n = (List.replicate n none, ⟨s, true⟩) := by
      rw [h.next, h.isFinal]
      exact Items.take_of_done s n
    rw [Items.take_succ, hdone, h.next]
    refine ⟨?_, rfl⟩
    rw [List.take_succ_cons, List.take_replicate, Nat.min_eq_left (Nat.le_succ n)]

end Stays

end Scanner

namespace Session

variable {s : Session} {item : Item}

/-- A scanner that stays at its final item answers each sort of request with it, and the session stays
as it is. -/
theorem perform_of_stays (h : s.scanner.Stays item) :
    s.perform .next = (.item item, s) ∧
      s.perform .tokens = (.tokens (Item.collect [item]), s) ∧
      ∀ n, s.perform (.items n) = (.items ((some item :: List.replicate n none).take n), s) := by
  refine ⟨?_, ?_, ?_⟩
  · rw [perform, h.next]
  · rw [perform, h.tokens]
  · intro n
    obtain ⟨hitems, hscanner⟩ := h.items n
    simp only [perform, hitems, hscanner]

theorem scanner_perform_of_stays (h : s.scanner.Stays item) {order : Order}
    (horder : order ≠ .reset ∧ order ≠ .restore) : (s.perform order).2.scanner = s.scanner := by
  obtain ⟨hnext, htokens, hitems⟩ := perform_of_stays h
  cases order with
  | next => rw [hnext]
  | tokens => rw [htokens]
  | items n => rw [hitems n]
  | reset => exact absurd rfl horder.1
  | restore => exact absurd rfl horder.2
  | last => rfl
  | source => rfl
  | mode => rfl
  | save => rfl

/-- Nothing but going back to the start or to a scanner put aside gets such a scanner to move. -/
theorem scanner_after_of_stays (h : s.scanner.Stays item) {later : List Order}
    (hlater : ∀ order ∈ later, order ≠ .reset ∧ order ≠ .restore) :
    (s.after later).scanner = s.scanner := by
  induction later generalizing s with
  | nil => rfl
  | cons order later ih =>
    obtain ⟨horder, hlater⟩ := List.forall_mem_cons.mp hlater
    have hkept : (s.perform order).2.scanner = s.scanner := scanner_perform_of_stays h horder
    have hstays : (s.perform order).2.scanner.Stays item := by
      rw [hkept]
      exact h
    rw [← hkept]
    exact ih hstays hlater

end Session

end Lexemes
