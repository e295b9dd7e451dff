import Lexemes.Proofs.Pulls
import Lexemes.Proofs.Spelling

namespace Lexemes

/-- The error that an item is, if it is one. -/
def Item.error? : Item → Option ScanError
  | .ok _ => none
  | .error e => some e

namespace CommandLine

/-- The text that a run lists the tokens of: the first argument that is no flag, or else the input. -/
def listedText (arguments : List String) (input : String) : List Char :=
  ((arguments.filter fun a => a ≠ jsonFlag ∧ a ≠ lenientFlag).head?.getD input).toList

/-- The scanner over the text that a run lists, in the mode that the arguments ask for. -/
def listedScanner (arguments : List String) (input : String) : Scanner :=
  .ofText (listedText arguments input) (if lenientFlag ∈ arguments then .lenient else .strict)

section Arguments

variable {arguments : List String}

/-- Arguments get fewer when a flag is taken out exactly if it is among them. -/
theorem takeFlag_eq (flag : String) (arguments : List String) :
    takeFlag flag arguments = (decide (flag ∈ arguments), arguments.filter (· != flag)) := by
  have hfewer : (arguments.filter (· != flag)).length < arguments.length ↔ flag ∈ arguments := by
    rw [List.length_filter_lt_length_iff_exists]
    constructor
    · rintro ⟨a, ha, hflag⟩
      obtain rfl : a = flag := by simpa using hflag
      exact ha
    · intro h
      exact ⟨flag, h, by simp⟩
  have hle : (arguments.filter (· != flag)).length ≤ arguments.length := List.length_filter_le _ _
  have hseen : ((arguments.filter (· != flag)).length != arguments.length) =
      decide (flag ∈ arguments) := by
    rw [Bool.eq_iff_iff, bne_iff_ne, decide_eq_true_iff, ← hfewer]
    omega
  rw [takeFlag, hseen]

/-- Taking out one flag does not touch the other, so both are looked for among all arguments. -/
theorem ofArguments_eq (arguments : List String) :
    Request.ofArguments arguments =
      { format := if jsonFlag ∈ arguments then .json else .plain
        mode := if lenientFlag ∈ arguments then .lenient else .strict
        source? := (arguments.filter fun a => a ≠ jsonFlag ∧ a ≠ lenientFlag).head? } := by
  have hother : lenientFlag != jsonFlag := by decide
  have hlenient : lenientFlag ∈ arguments.filter (· != jsonFlag) ↔ lenientFlag ∈ arguments := by
    rw [List.mem_filter]
    exact and_iff_left hother
  have hsource : (arguments.filter (· != jsonFlag)).filter (· != lenientFlag) =
      arguments.filter fun a => a ≠ jsonFlag ∧ a ≠ lenientFlag := by
    rw [List.filter_filter]
    apply List.filter_congr
    intro a _
    rw [Bool.eq_iff_iff]
    simp [and_comm]
  simp only [Request.ofArguments, takeFlag_eq, decide_eq_true_eq, hlenient, hsource]

theorem runHiding_eq (hidden : Nat → Bool) (arguments : List String) (input : String) :
    runHiding hidden arguments input.toUTF8 =
      listTextHiding hidden (if jsonFlag ∈ arguments then .json else .plain)
        (if lenientFlag ∈ arguments then .lenient else .strict) (listedText arguments input) := by
  have hinput : String.fromUTF8? input.toUTF8 = some input := dif_pos input.isValidUTF8
  rw [runHiding, ofArguments_eq, hinput, listedText]
  cases (arguments.filter fun a => a ≠ jsonFlag ∧ a ≠ lenientFlag).head? <;> rfl

theorem run_eq (arguments : List String) (input : String) :
    run arguments input.toUTF8 =
      listText (if jsonFlag ∈ arguments then .json else .plain)
        (if lenientFlag ∈ arguments then .lenient else .strict) (listedText arguments input) :=
  runHiding_eq Text.Quoted.isHidden arguments input

end Arguments

section List

variable {format : Format} {s : Scanner} {t : Token} {e : ScanError}

theorem list_of_error (h : s.next.1 = .error e) : list format s = ([], some e) := by
  rw [list]
  split
  next e' u hnext =>
    rw [hnext] at h
    rw [Except.error.inj h]
  next t u hnext =>
    rw [hnext] at h
    cases h

theorem list_of_end (h : s.next.1 = .ok t) (hend : t.isEnd = true) :
    list format s = (format.entry t, none) := by
  rw [list]
  split
  next e u hnext =>
    rw [hnext] at h
    cases h
  next t' u hnext =>
    rw [hnext] at h
    obtain rfl := Except.ok.inj h
    exact dif_pos hend

theorem list_of_more (h : s.next.1 = .ok t) (hend : t.isEnd = false) :
    list format s =
      (format.entry t ++ (list format s.next.2).1, (list format s.next.2).2) := by
  rw [list]
  split
  next e u hnext =>
    rw [hnext] at h
    cases h
  next t' u hnext =>
    rw [hnext] at h ⊢
    obtain rfl := Except.ok.inj h
    exact dif_neg (by simp [hend])

/-- What is written for a token if JSON is asked for, and if it is not. -/
theorem entry_ite (json : Prop) [Decidable json] (t : Token) :
    Format.entry (if json then .json else .plain) t =
      if t.isEnd then (if json then Spelling.jsonRow t ++ ['\n'] else [])
      else (if json then Spelling.jsonRow t else Spelling.row t) ++ ['\n'] := by
  rw [← Spelling.jsonRow_eq, ← Spelling.row_eq]
  by_cases hjson : json
  · simp only [if_pos hjson, Format.entry, ite_self]
  · simp only [if_neg hjson, Format.entry]

/-- Listing writes the entries of all tokens that a scanner drains to, and tells the error that it drains
to. -/
theorem list_eq (format : Format) (s : Scanner) :
    list format s =
      ((s.drain.1.filterMap Except.toOption).flatMap format.entry, s.drain.1.findSome? Item.error?) := by
  induction s using Scanner.pull_induction with
  | hfinal s h =>
    rw [Scanner.drain_of_final h]
    cases hitem : s.next.1 with
    | error e => exact list_of_error hitem
    | ok t =>
      rw [hitem] at h
      rw [list_of_end hitem h]
      exact congrArg (·, none) (List.append_nil _).symm
  | hmore s h ih =>
    rw [Scanner.drain_of_more h]
    cases hitem : s.next.1 with
    | error e =>
      rw [hitem] at h
      cases h
    | ok t =>
      rw [hitem] at h
      rw [list_of_more hitem h, ih]
      rfl

section Text

variable {mode : Mode} {source : List Char} {tokens : List Token}

theorem findSome?_error?_map (tokens : List Token) :
    (tokens.map (.ok : Token → Item)).findSome? Item.error? = none := by
  rw [List.findSome?_eq_none_iff]
  intro item hitem
  obtain ⟨t, -, rfl⟩ := List.mem_map.mp hitem
  rfl

section Report

variable {hidden : Nat → Bool}

theorem listTextHiding_of_end (h : (Scanner.ofText source mode).drain.1 = tokens.map .ok ++ [.ok t]) :
    listTextHiding hidden format mode source =
      ⟨0, tokens.flatMap format.entry ++ format.entry t, []⟩ := by
  rw [listTextHiding, list_eq, h, List.filterMap_append, Item.filterMap_toOption_map,
    List.findSome?_append, findSome?_error?_map, List.flatMap_append]
  show Report.mk 0 (tokens.flatMap format.entry ++ (format.entry t ++ [])) [] = _
  rw [List.append_nil]

/-- What was listed before an error stays in the output. -/
theorem listTextHiding_of_error
    (h : (Scanner.ofText source mode).drain.1 = tokens.map .ok ++ [.error e]) :
    listTextHiding hidden format mode source =
      ⟨1, tokens.flatMap format.entry,
        failureText ("tokenizing ".toList ++ Text.Quoted.quoteHiding hidden (Text.trim source))
          e.message⟩ := by
  rw [listTextHiding, list_eq, h, List.filterMap_append, Item.filterMap_toOption_map,
    List.findSome?_append, findSome?_error?_map, List.flatMap_append]
  show Report.mk 1 (tokens.flatMap format.entry ++ []) _ = _
  rw [List.append_nil]

end Report

theorem output_listText (format : Format) (mode : Mode) (source : List Char) :
    (listText format mode source).output =
      ((Scanner.ofText source mode).drain.1.filterMap Except.toOption).flatMap format.entry := by
  have hwritten : (listText format mode source).output = (list format (.ofText source mode)).1 := by
    rw [listText, listTextHiding]
    rcases list format (.ofText source mode) with ⟨output, _ | e⟩ <;> rfl
  rw [hwritten, list_eq]

/-- A source is listed with success only if it drains to tokens alone. -/
theorem exists_end_of_status (h : (listText format mode source).status = 0) :
    ∃ (tokens : List Token) (t : Token),
      (Scanner.ofText source mode).drain.1 = tokens.map .ok ++ [.ok t] := by
  obtain ⟨tokens, final, hdrain, -, -⟩ := (Scanner.ofText source mode).drain_ended.exists_eq
  cases final with
  | ok t => exact ⟨tokens, t, hdrain⟩
  | error e =>
    rw [listText, listTextHiding_of_error hdrain] at h
    cases h

end Text

end List

theorem items_inj {tokens others : List Token} {final last : Item}
    (h : tokens.map .ok ++ [final] = others.map .ok ++ [last]) : tokens = others ∧ final = last := by
  obtain ⟨htokens, hlast⟩ := List.append_inj' h rfl
  exact ⟨List.map_injective_iff.mpr (fun _ _ => Except.ok.inj) htokens, List.singleton_inj.mp hlast⟩

/-- The report of an error, with every part of it spelled out. -/
theorem failureText_eq_spelling (hidden : Nat → Bool) (source : List Char) (e : ScanError) :
    failureText ("tokenizing ".toList ++ Text.Quoted.quoteHiding hidden source) e.message =
      "Error: tokenizing ".toList ++ Spelling.quotation (Spelling.reportEscape hidden) source ++
        "\n\nCaused by:\n    ".toList ++ Spelling.message e ++ ['\n'] := by
  have htrial : "Error: tokenizing ".toList = "Error: ".toList ++ "tokenizing ".toList := by decide
  unfold failureText
  rw [htrial, Spelling.quoteHiding_eq, Spelling.message_eq]
  simp only [List.append_assoc]

/-- A run with any arguments and any input leaves behind what its source drains to: a row for each token,
in JSON also for the end of the input. It is successful exactly if there is no error, and otherwise tells
the error and the source without the white space at its ends. This is so whichever characters are taken
not to show in the quotation of the source. -/
theorem run_reports_drained_items (arguments : List String) (input : String) :
    run arguments input.toUTF8 = runHiding Text.Quoted.isHidden arguments input.toUTF8 ∧
      ∀ hidden : Nat → Bool,
        let source := ((arguments.filter fun a => a ≠ "--json" ∧ a ≠ "--lenient").head?.getD input).toList
        let mode : Mode := if "--lenient" ∈ arguments then .lenient else .strict
        let entry (t : Token) : List Char :=
          (if "--json" ∈ arguments then Spelling.jsonRow t else Spelling.row t) ++ ['\n']
        let report := runHiding hidden arguments input.toUTF8
        ∃ (tokens : List Token) (final : Item),
          (Scanner.ofText source mode).drain.1 = tokens.map .ok ++ [final] ∧
            (∀ t, final = .ok t →
              t.kind = .endOfInput ∧
                report = ⟨0,
                  tokens.flatMap entry ++ (if "--json" ∈ arguments then entry t else []), []⟩) ∧
            (∀ e, final = .error e →
              ∃ trimmed, Spelling.Trims source trimmed ∧
                report = ⟨1, tokens.flatMap entry,
                  "Error: tokenizing ".toList ++
                    Spelling.quotation (Spelling.reportEscape hidden) trimmed ++
                    "\n\nCaused by:\n    ".toList ++ Spelling.message e ++ ['\n']⟩) ∧
            (report.status = 0 ∧ report.errors = [] ↔ ∃ t, final = .ok t) := by
  refine ⟨rfl, ?_⟩
  intro hidden source mode entry report
  obtain ⟨tokens, final, hdrain, htokens, hfinal⟩ := (Scanner.ofText source mode).drain_ended.exists_eq
  have hreport : report = listTextHiding hidden (if "--json" ∈ arguments then .json else .plain) mode source :=
    runHiding_eq hidden arguments input
  have hentries : tokens.flatMap (Format.entry (if "--json" ∈ arguments then .json else .plain)) =
      tokens.flatMap entry := by
    apply List.flatMap_congr
    intro t ht
    rw [entry_ite, if_neg (by simp [htokens t ht])]
  refine ⟨tokens, final, hdrain, ?_, ?_, ?_⟩
  · rintro t rfl
    have hend : t.isEnd = true := hfinal
    refine ⟨beq_iff_eq.mp hend, ?_⟩
    rw [hreport, listTextHiding_of_end hdrain, hentries, entry_ite, if_pos hend]
    by_cases hjson : "--json" ∈ arguments
    · simp only [entry, if_pos hjson]
    · simp only [if_neg hjson]
  · rintro e rfl
    refine ⟨Text.trim source, Spelling.trims_trim source, ?_⟩
    rw [hreport, listTextHiding_of_error hdrain, hentries, failureText_eq_spelling]
  · cases final with
    | error e =>
      rw [hreport, listTextHiding_of_error hdrain]
      constructor
      · rintro ⟨hstatus, -⟩
        cases hstatus
      · rintro ⟨t, ht⟩
        cases ht
    | ok t =>
      rw [hreport, listTextHiding_of_end hdrain]
      exact iff_of_true ⟨rfl, rfl⟩ ⟨t, rfl⟩

/-- A plain run, a run in JSON, and one that fails at a letter with a vowel sign above it, which does not
show by itself. -/
theorem run_reports_drained_items_vowelSign :
    run ["in 'a'"] "".toUTF8 =
        ⟨0, ("     1:1   IN                 in\n" ++
          "     1:4   CHARACTER          'a'\n").toList, []⟩ ∧
      run ["--json"] "-7".toUTF8 =
        ⟨0, ("\x7b\"kind\":\"Integer\",\"lexeme\":\"-7\",\"value\":\x7b\"Integer\":-7\x7d," ++
          "\"offset\":0,\"line\":1,\"column\":1\x7d\n" ++
          "\x7b\"kind\":\"EndOfInput\",\"lexeme\":\"\",\"value\":\x7b\"Text\":\"\"\x7d," ++
          "\"offset\":2,\"line\":1,\"column\":3\x7d\n").toList, []⟩ ∧
      run [] "x \u0e01\u0e35\n".toUTF8 =
        ⟨1, "     1:1   IDENTIFIER         x\n".toList,
          ("Error: tokenizing \"x \u0e01\\u\x7be35\x7d\"\n\nCaused by:\n" ++
            "    Unknown token '\u0e01' at line 1, column 3 (offset 2)\n").toList⟩ := by
  refine ⟨?_, ?_, ?_⟩
  · obtain ⟨hrun, hreport⟩ := run_reports_drained_items ["in 'a'"] ""
    obtain ⟨tokens, final, hdrain, hend, -⟩ := hreport Text.Quoted.isHidden
    have hitems : (Scanner.ofText "in 'a'".toList .strict).drain.1 =
        [⟨.keyword .inWord, "in", .text "in", ⟨0, 1, 1⟩⟩,
          ⟨.character, "'a'", .char 'a', ⟨3, 1, 4⟩⟩].map .ok ++ [.ok (.endOfInput ⟨6, 1, 7⟩)] := by
      decide +kernel
    obtain ⟨rfl, rfl⟩ := items_inj (hdrain.symm.trans hitems)
    rw [hrun, (hend _ rfl).2]
    decide +kernel
  · obtain ⟨hrun, hreport⟩ := run_reports_drained_items ["--json"] "-7"
    obtain ⟨tokens, final, hdrain, hend, -⟩ := hreport Text.Quoted.isHidden
    have hitems : (Scanner.ofText "-7".toList .strict).drain.1 =
        [⟨.integer, "-7", .integer (-7), ⟨0, 1, 1⟩⟩].map .ok ++ [.ok (.endOfInput ⟨2, 1, 3⟩)] := by
      decide +kernel
    obtain ⟨rfl, rfl⟩ := items_inj (hdrain.symm.trans hitems)
    rw [hrun, (hend _ rfl).2]
    decide +kernel
  · obtain ⟨hrun, hreport⟩ := run_reports_drained_items [] "x \u0e01\u0e35\n"
    obtain ⟨tokens, final, hdrain, -, herror, -⟩ := hreport Text.Quoted.isHidden
    have hitems : (Scanner.ofText "x \u0e01\u0e35\n".toList .strict).drain.1 =
        [⟨.identifier, "x", .text "x", ⟨0, 1, 1⟩⟩].map .ok ++
          [.error ⟨.unknown '\u0e01', ⟨2, 1, 3⟩⟩] := by
      decide +kernel
    obtain ⟨rfl, rfl⟩ := items_inj (hdrain.symm.trans hitems)
    obtain ⟨trimmed, htrims, hwritten⟩ := herror _ rfl
    rw [hrun, hwritten, htrims.eq_trim]
    decide +kernel

end CommandLine

end Lexemes
