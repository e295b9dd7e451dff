import Lexemes.Proofs.Quoted

/-! Messages of errors. The offending characters stand in a message as they are, and may look like the end
of a message themselves. The places of an error are told behind them, so a message is read from its end,
where each number is what follows the last space. Read that way it tells the whole error. -/
namespace Lexemes

/-- A text can be cut at the last place of a character in one way only. -/
theorem Text.cut_last_inj {mark : Char} {a b rest other : List Char} (hrest : mark ∉ rest)
    (hother : mark ∉ other) (h : a ++ mark :: rest = b ++ mark :: other) : a = b ∧ rest = other := by
  have hreversed : rest.reverse ++ mark :: a.reverse = other.reverse ++ mark :: b.reverse := by
    simpa only [List.reverse_append, List.reverse_cons, List.append_assoc, List.singleton_append] using
      congrArg List.reverse h
  have hrest' : mark ∉ rest.reverse := mt List.mem_reverse.mp hrest
  have hother' : mark ∉ other.reverse := mt List.mem_reverse.mp hother
  obtain ⟨hend, hlead⟩ := cut_inj hrest' hother' hreversed
  exact ⟨List.reverse_injective hlead, List.reverse_injective hend⟩

theorem Numeral.space_not_mem_ofNat (n : Nat) : ' ' ∉ Numeral.ofNat n := by
  intro hspace
  have hdigit : ' '.isDigit = true := Nat.isDigit_of_mem_toDigits (by decide) (by decide) hspace
  exact absurd hdigit (by decide)

namespace Fault

variable {f g : Fault}

/-- The first letters tell the sort of a fault, and what the words around the quoted characters leave is
these characters. -/
theorem eq_of_message_eq (h : f.message = g.message) : f = g := by
  cases f with
  | unknown c =>
    cases g with
    | unknown d =>
      have hquoted : [c, '\''] = [d, '\''] := List.append_cancel_left h
      rw [(List.cons.inj hquoted).1]
    | malformed lexeme => cases h
    | unterminated => cases h
  | malformed lexeme =>
    cases g with
    | unknown d => cases h
    | malformed other =>
      have hquoted : lexeme.toList = other.toList := List.append_cancel_left (List.append_cancel_right h)
      rw [String.toList_inj.mp hquoted]
    | unterminated => cases h
  | unterminated =>
    cases g with
    | unknown d => cases h
    | malformed other => cases h
    | unterminated => rfl

end Fault

namespace ScanError

/-- A number behind a word, as the parts of a place are told, and what closes it. -/
def numbered (word : List Char) (n : Nat) (close : List Char) : List Char :=
  word ++ ' ' :: (Numeral.ofNat n ++ close)

variable {word close text other : List Char} {m n : Nat}

/-- The last number of a text is what stands behind its last space, whatever is in the text before. -/
theorem append_numbered_inj (hclose : ' ' ∉ close)
    (h : text ++ numbered word m close = other ++ numbered word n close) : text = other ∧ m = n := by
  have hnumber (k : Nat) : ' ' ∉ Numeral.ofNat k ++ close :=
    List.not_mem_append (Numeral.space_not_mem_ofNat k) hclose
  rw [numbered, numbered, ← List.append_assoc, ← List.append_assoc] at h
  obtain ⟨hlead, hend⟩ := Text.cut_last_inj (hnumber m) (hnumber n) h
  exact ⟨List.append_cancel_right hlead, Numeral.ofNat_injective (List.append_cancel_right hend)⟩

theorem message_eq (e : ScanError) :
    e.message =
      e.fault.message ++ numbered " at line".toList e.position.line [] ++
        numbered ", column".toList e.position.column [] ++
        numbered " (offset".toList e.position.offset [')'] := by
  have hline : " at line ".toList = " at line".toList ++ [' '] := by decide
  have hcolumn : ", column ".toList = ", column".toList ++ [' '] := by decide
  have hoffset : " (offset ".toList = " (offset".toList ++ [' '] := by decide
  rw [message, hline, hcolumn, hoffset]
  simp only [numbered, List.append_assoc, List.cons_append, List.nil_append, List.append_nil]

/-- Errors with the same message are the same, whatever they quote: they are of the same sort, quote the
same characters and begin at the same place. -/
theorem message_injective : Function.Injective message := by
  intro e f h
  rw [message_eq, message_eq] at h
  obtain ⟨htext, hoffset⟩ := append_numbered_inj (by decide) h
  obtain ⟨htext, hcolumn⟩ := append_numbered_inj List.not_mem_nil htext
  obtain ⟨hmessage, hline⟩ := append_numbered_inj List.not_mem_nil htext
  obtain ⟨fault, offset, line, column⟩ := e
  obtain ⟨fault', offset', line', column'⟩ := f
  obtain rfl : fault = fault' := Fault.eq_of_message_eq hmessage
  obtain rfl : offset = offset' := hoffset
  obtain rfl : line = line' := hline
  obtain rfl : column = column' := hcolumn
  rfl

/-- A lexeme that goes on as the message of another error does behind its lexeme: the one message begins
with the other. -/
theorem message_injective_imitation :
    let e : ScanError := ⟨.malformed "1", ⟨0, 1, 1⟩⟩
    let f : ScanError := ⟨.malformed (String.ofList (e.message.drop 18)), ⟨0, 1, 1⟩⟩
    let g : ScanError := ⟨.malformed "1' at line 1, column 1 (offset 0)", .start⟩
    f.message = g.message ∧ f = g ∧ e.message <+: g.message ∧ e.message ≠ g.message := by
  intro e f g
  have hsame : f.message = g.message := by decide
  have hbegins : e.message <+: g.message := by decide
  exact ⟨hsame, message_injective hsame, hbegins, message_injective.ne (by decide)⟩

end ScanError

end Lexemes
