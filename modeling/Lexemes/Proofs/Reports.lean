import Lexemes.Proofs.Messages
import Lexemes.Proofs.PlainLines

namespace Lexemes

open Json (Shown shown_cons shown_append)

/-- The characters that a fault is about. They stand in its message as they are. -/
def Fault.quoted : Fault → List Char
  | unknown c => [c]
  | malformed lexeme => lexeme.toList
  | unterminated => []

namespace Grammar

variable {mode : Mode} {text run : List Char} {fault : Fault} {c : Char}

theorem NumberRun.isBlank_eq_false (h : NumberRun run) (hc : c ∈ run) : Text.isBlank c = false := by
  have hpart : Digit c ∨ c = '-' ∨ c = '.' := by
    cases run with
    | nil => exact absurd h id
    | cons first tail =>
      rcases List.mem_cons.mp hc with rfl | htail
      · exact h.1.imp_right Or.inl
      · exact (h.2 c htail).imp_right Or.inr
  apply eq_false_of_ne_true
  intro hblank
  rcases (isBlank_iff c).mp hblank with rfl | rfl | rfl | rfl | rfl | rfl <;>
    exact absurd hpart (by decide)

/-- A fault of a text that does not begin with a blank quotes no blank. -/
theorem isBlank_of_mem_quoted (h : recognize mode text = .error fault)
    (hhead : ∀ first ∈ text.head?, Text.isBlank first = false) (hc : c ∈ fault.quoted) :
    Text.isBlank c = false := by
  have hreads : Reads mode text (.error fault) := reads_iff.mpr h.symm
  cases hreads with
  | malformed hstart hfound hvalue =>
    rw [Fault.quoted, String.toList_ofList] at hc
    exact hfound.mem.isBlank_eq_false hc
  | unterminated hopen => exact absurd hc List.not_mem_nil
  | unknown hmark hletter hnumber hquote =>
    rw [List.mem_singleton.mp hc]
    exact hhead _ rfl

end Grammar

namespace ScanError

theorem shown_numbered {word close : List Char} (hword : Shown word) (n : Nat) (hclose : Shown close) :
    Shown (numbered word n close) :=
  shown_append hword (shown_cons (by decide) (shown_append (Json.shown_toDigits n) hclose))

/-- All of a message but the characters that it quotes is free of control characters. -/
theorem exists_message_eq (e : ScanError) :
    ∃ before behind, Shown before ∧ Shown behind ∧ e.message = before ++ (e.fault.quoted ++ behind) := by
  have hline : Shown (numbered " at line".toList e.position.line []) :=
    shown_numbered (by decide) _ (by decide)
  have hcolumn : Shown (numbered ", column".toList e.position.column []) :=
    shown_numbered (by decide) _ (by decide)
  have hoffset : Shown (numbered " (offset".toList e.position.offset [')']) :=
    shown_numbered (by decide) _ (by decide)
  have hplace := shown_append hline (shown_append hcolumn hoffset)
  have hquote : 0x20 ≤ '\''.toNat := by decide
  rw [message_eq, List.append_assoc, List.append_assoc]
  cases e.fault with
  | unknown c =>
    exact ⟨"Unknown token '".toList, _, by decide, shown_cons hquote hplace, List.append_assoc _ _ _⟩
  | malformed lexeme =>
    refine ⟨"Malformed number '".toList, _, by decide, shown_cons hquote hplace, ?_⟩
    show (("Malformed number '".toList ++ lexeme.toList) ++ ['\'']) ++ _ = _
    rw [List.append_assoc, List.append_assoc]
    rfl
  | unterminated => exact ⟨"Unterminated character literal".toList, _, by decide, hplace, rfl⟩

theorem feed_mem_message_iff (e : ScanError) : '\n' ∈ e.message ↔ '\n' ∈ e.fault.quoted := by
  obtain ⟨before, behind, hbefore, hbehind, hmessage⟩ := e.exists_message_eq
  rw [hmessage, List.mem_append, List.mem_append]
  constructor
  · rintro (hfeed | hfeed | hfeed)
    · exact absurd hfeed hbefore.not_mem
    · exact hfeed
    · exact absurd hfeed hbehind.not_mem
  · exact fun hfeed => Or.inr (Or.inl hfeed)

end ScanError

namespace Scanner

variable {s : Scanner} {e : ScanError}

theorem fault_of_mem_drain (he : .error e ∈ s.drain.1) :
    ∃ text, Grammar.recognize s.mode text = .error e.fault ∧
      ∀ first ∈ text.head?, Text.isBlank first = false := by
  obtain ⟨text, hitem, hhead⟩ := outcome_of_mem_drain he
  refine ⟨text, ?_, hhead⟩
  cases hfault : Grammar.recognize s.mode text with
  | ok b =>
    rw [hfault] at hitem
    cases hitem
  | error fault =>
    rw [hfault] at hitem
    have herror : e = ⟨fault, e.position⟩ := Except.error.inj hitem
    rw [congrArg ScanError.fault herror]

/-- The message of an error that a scanner finds stays on one line. -/
theorem feed_not_mem_message (he : .error e ∈ s.drain.1) : '\n' ∉ e.message := by
  obtain ⟨text, hfault, hhead⟩ := fault_of_mem_drain he
  rw [e.feed_mem_message_iff]
  intro hfeed
  exact absurd (Grammar.isBlank_of_mem_quoted hfault hhead hfeed) (by decide)

end Scanner

namespace CommandLine

/-- The lines of a report: what was tried, and behind an empty line the message of the cause. -/
def reportLines (trial cause : List Char) : List (List Char) :=
  ["Error: ".toList ++ trial, [], "Caused by:".toList, "    ".toList ++ cause]

section FailureText

variable {trial cause : List Char}

theorem failureText_eq (trial cause : List Char) :
    failureText trial cause = (reportLines trial cause).flatMap (· ++ ['\n']) := by
  have hheading : "\n\nCaused by:\n    ".toList =
      '\n' :: '\n' :: ("Caused by:".toList ++ '\n' :: "    ".toList) := by decide
  unfold failureText
  rw [hheading]
  simp only [reportLines, List.flatMap_cons, List.flatMap_nil, List.append_assoc, List.cons_append,
    List.nil_append, List.append_nil]

theorem feed_not_mem_reportLines (htrial : '\n' ∉ trial) (hcause : '\n' ∉ cause) :
    ∀ line ∈ reportLines trial cause, '\n' ∉ line := by
  have hcontext : '\n' ∉ "Error: ".toList ++ trial := List.not_mem_append (by decide) htrial
  have hindented : '\n' ∉ "    ".toList ++ cause := List.not_mem_append (by decide) hcause
  simp only [reportLines, List.forall_mem_cons]
  exact ⟨hcontext, List.not_mem_nil, by decide, hindented, List.forall_mem_nil _⟩

/-- A trial and a cause of one line each are reported in four lines. -/
theorem splitOn_failureText (htrial : '\n' ∉ trial) (hcause : '\n' ∉ cause) :
    (failureText trial cause).splitOn '\n' = reportLines trial cause ++ [[]] ∧
      (failureText trial cause).count '\n' = 4 := by
  have hlines := feed_not_mem_reportLines htrial hcause
  rw [failureText_eq]
  exact ⟨Json.splitOn_lines hlines, count_lines hlines⟩

end FailureText

/-- How a source is named in the report of a failure, if a given class of code points is taken not to
show. -/
def trialHiding (hidden : Nat → Bool) (source : List Char) : List Char :=
  "tokenizing ".toList ++ Text.Quoted.quoteHiding hidden (Text.trim source)

theorem feed_not_mem_trialHiding {hidden : Nat → Bool} (hcontrols : ∀ code < 0x20, hidden code = true)
    (source : List Char) : '\n' ∉ trialHiding hidden source := by
  have hquoted : Shown (Text.Quoted.quoteHiding hidden (Text.trim source)) :=
    Text.Quoted.shown_quoteHiding hcontrols _
  have htrial : Shown (trialHiding hidden source) := shown_append (by decide) hquoted
  exact htrial.not_mem

/-- A source is listed without success only if it drains to an error, which is reported. -/
theorem exists_error_of_status {format : Format} {mode : Mode} {source : List Char}
    (h : (listText format mode source).status ≠ 0) :
    ∃ (tokens : List Token) (e : ScanError),
      (Scanner.ofText source mode).drain.1 = tokens.map .ok ++ [.error e] ∧
        (listText format mode source).errors =
          failureText (trialHiding Text.Quoted.isHidden source) e.message := by
  obtain ⟨tokens, final, hdrain, -, -⟩ := (Scanner.ofText source mode).drain_ended.exists_eq
  cases final with
  | ok t =>
    rw [listText, listTextHiding_of_end hdrain] at h
    exact absurd rfl h
  | error e =>
    refine ⟨tokens, e, hdrain, ?_⟩
    rw [listText, listTextHiding_of_error hdrain]
    rfl

/-- If a run fails, then its source drains to an error whose message is one line, and the error output is
cut at its line feeds into four lines with nothing behind them: what was tried with the quoted source,
an empty line, the heading of the cause and the message. This is so whatever the source is, and it would
be so whichever characters besides the controls were escaped in the quotation. -/
theorem failure_report_lines (arguments : List String) (input : String)
    (hfails : (run arguments input.toUTF8).status ≠ 0) :
    let report := run arguments input.toUTF8
    let source := listedText arguments input
    ∃ (tokens : List Token) (e : ScanError),
      (listedScanner arguments input).drain.1 = tokens.map .ok ++ [.error e] ∧
        '\n' ∉ e.message ∧
        report.errors.splitOn '\n' =
          reportLines ("tokenizing ".toList ++ Text.Quoted.quote (Text.trim source)) e.message ++ [[]] ∧
        report.errors.count '\n' = 4 ∧
        ∀ hidden : Nat → Bool, (∀ code < 0x20, hidden code = true) →
          (failureText (trialHiding hidden source) e.message).splitOn '\n' =
            reportLines (trialHiding hidden source) e.message ++ [[]] := by
  intro report source
  have hreport : report = listText (if jsonFlag ∈ arguments then .json else .plain)
      (if lenientFlag ∈ arguments then .lenient else .strict) source := run_eq arguments input
  have hstatus : report.status ≠ 0 := hfails
  rw [hreport] at hstatus
  obtain ⟨tokens, e, hdrain, herrors⟩ := exists_error_of_status hstatus
  rw [← hreport] at herrors
  have hmem : .error e ∈ (listedScanner arguments input).drain.1 := by
    rw [listedScanner, hdrain]
    exact List.mem_append_right _ (List.mem_singleton_self _)
  have hmessage : '\n' ∉ e.message := Scanner.feed_not_mem_message hmem
  have htrial := feed_not_mem_trialHiding Text.Quoted.isHidden_of_control source
  obtain ⟨hsplit, hcount⟩ := splitOn_failureText htrial hmessage
  rw [← herrors] at hsplit hcount
  refine ⟨tokens, e, hdrain, hmessage, hsplit, hcount, ?_⟩
  intro hidden hhidden
  exact (splitOn_failureText (feed_not_mem_trialHiding hhidden source) hmessage).1

/-- A literal of a line feed, a quotation mark, which is the fault, and a control character. -/
theorem failure_report_lines_quotationMark :
    (run [] "'\n' \"\x01\n".toUTF8).status ≠ 0 ∧
      (run [] "'\n' \"\x01\n".toUTF8).errors.splitOn '\n' =
        ["Error: tokenizing \"'\\n' \\\"\\u\x7b1\x7d\"".toList, [], "Caused by:".toList,
          "    Unknown token '\"' at line 2, column 3 (offset 4)".toList, []] := by
  have hfails : (run [] "'\n' \"\x01\n".toUTF8).status ≠ 0 := by decide +kernel
  have hitems : (listedScanner [] "'\n' \"\x01\n").drain.1 =
      [⟨.character, "'\n'", .char '\n', ⟨0, 1, 1⟩⟩].map .ok ++ [.error ⟨.unknown '"', ⟨4, 2, 3⟩⟩] := by
    decide +kernel
  obtain ⟨tokens, e, hdrain, -, hsplit, -⟩ := failure_report_lines [] "'\n' \"\x01\n" hfails
  obtain ⟨-, hlast⟩ := List.append_inj' (hdrain.symm.trans hitems) rfl
  have herror : e = ⟨.unknown '"', ⟨4, 2, 3⟩⟩ := Except.error.inj (List.singleton_inj.mp hlast)
  refine ⟨hfails, ?_⟩
  rw [hsplit, herror]
  decide +kernel

end CommandLine

end Lexemes
