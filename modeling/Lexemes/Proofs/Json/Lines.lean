import Lexemes.Proofs.Json.Survival
import Lexemes.Proofs.Leniency
import Lexemes.Proofs.Listing

namespace Lexemes

theorem Numeral.ofNat_injective : Function.Injective ofNat := by
  intro m n h
  calc
    m = Nat.ofDigitChars 10 (ofNat m) 0 := Nat.ofDigitChars_ten_toDigits.symm
    _ = Nat.ofDigitChars 10 (ofNat n) 0 := by rw [h]
    _ = n := Nat.ofDigitChars_ten_toDigits

namespace Json

/-- A text without control characters. -/
def Shown (text : List Char) : Prop := ∀ c ∈ text, 0x20 ≤ c.toNat

-- The instance is named, as there is one that runs through all characters.
instance (text : List Char) : Decidable (Shown text) :=
  List.decidableBAll (fun c : Char => 0x20 ≤ c.toNat) text

section Shown

theorem shown_cons {c : Char} {text : List Char} (hc : 0x20 ≤ c.toNat) (h : Shown text) :
    Shown (c :: text) := List.forall_mem_cons.mpr ⟨hc, h⟩

theorem shown_append {text rest : List Char} (h : Shown text) (hrest : Shown rest) :
    Shown (text ++ rest) := List.forall_mem_append.mpr ⟨h, hrest⟩

/-- No character behind one that is no control character is one. -/
theorem code_le {c d : Char} (hd : 0x20 ≤ d.toNat) (h : d ≤ c) : 0x20 ≤ c.toNat :=
  Nat.le_trans hd (UInt32.le_iff_toNat_le.mp h)

theorem shown_replicate {c : Char} (hc : 0x20 ≤ c.toNat) (n : Nat) : Shown (List.replicate n c) := by
  intro d hd
  rw [List.eq_of_mem_replicate hd]
  exact hc

theorem shown_flatMap {f : Char → List Char} (h : ∀ c, Shown (f c)) (text : List Char) :
    Shown (text.flatMap f) := by
  intro d hd
  obtain ⟨c, -, hc⟩ := List.mem_flatMap.mp hd
  exact h c d hc

theorem code_digitChar {n : Nat} (h : n < 16) : 0x20 ≤ n.digitChar.toNat := by
  have hall : ∀ m < 16, 0x20 ≤ m.digitChar.toNat := by decide
  exact hall n h

theorem shown_of_isDigit {text : List Char} (h : ∀ c ∈ text, c.isDigit = true) : Shown text := by
  intro c hc
  have hzero : '0' ≤ c := ((Grammar.isDigit_iff_digit c).mp (h c hc)).1
  exact code_le (by decide) hzero

theorem shown_toDigits (n : Nat) : Shown (Nat.toDigits 10 n) :=
  shown_of_isDigit fun _ hc => Nat.isDigit_of_mem_toDigits (by decide) (by decide) hc

/-- A control character is written by a letter or by its number, never as it is. -/
theorem shown_escape (c : Char) : Shown (escape c) := by
  unfold escape
  split
  next hc =>
    have hcode : 0x20 ≤ c.toNat := by rcases hc with rfl | rfl <;> decide
    exact shown_cons (by decide) (shown_cons hcode (by decide))
  split
  next letter hletter =>
    have hcode : 0x20 ≤ letter.toNat := by
      unfold controlLetter? at hletter
      split_ifs at hletter <;> cases hletter <;> decide
    exact shown_cons (by decide) (shown_cons hcode (by decide))
  split
  next hcontrol =>
    have hhigh : 0x20 ≤ (c.toNat / 16).digitChar.toNat := code_digitChar (by omega)
    have hlow : 0x20 ≤ (c.toNat % 16).digitChar.toNat := code_digitChar (by omega)
    have hmark : Shown ['\\', 'u', '0', '0'] := by decide
    exact shown_append hmark (shown_cons hhigh (shown_cons hlow (by decide)))
  next hcontrol => exact shown_cons (Nat.le_of_not_lt hcontrol) (by decide)

theorem shown_string (text : List Char) : Shown (string text) :=
  shown_append (shown_cons (by decide) (shown_flatMap shown_escape text)) (by decide)

theorem Written.Proper.shown {w : Written} (h : w.Proper) : Shown w.text := by
  have hsign : Shown w.signText := by
    rw [signText]
    cases w.negative <;> decide
  have hfraction : Shown w.fractionText := by
    rw [fractionText]
    cases hafter : w.after? with
    | none => decide
    | some ds => exact shown_cons (by decide) (shown_of_isDigit (h.after_digits ds hafter).2)
  have hexponent : Shown w.exponentText := by
    rw [exponentText]
    cases w.exponent? with
    | none => decide
    | some e =>
      have hmark : 0x20 ≤ (if e < 0 then '-' else '+').toNat := by split <;> decide
      exact shown_cons (by decide) (shown_cons hmark (shown_toDigits _))
  exact shown_append (shown_append (shown_append hsign (shown_of_isDigit h.before_digits)) hfraction)
    hexponent

theorem shown_ofInt (n : Int) : Shown (Numeral.ofInt n) := by
  rw [← Written.text_ofInt]
  exact (Written.proper_ofInt n).shown

theorem shown_double (x : Binary64) : Shown (double x) := by
  rw [double]
  split
  next hfinite =>
    have hzero := (Shortest.decimal_fits .toEven (of_decide_eq_true hfinite)).2
    have hshown := (Written.proper_ofDecimal x.negative hzero).shown
    rw [Written.text_ofDecimal] at hshown
    exact hshown
  next => decide

theorem shown_listed {entries : List (String × List Char)} (h : ∀ entry ∈ entries, Shown entry.2)
    (first : Bool) : Shown (listed first entries) := by
  induction entries generalizing first with
  | nil => exact List.forall_mem_nil _
  | cons entry others ih =>
    obtain ⟨hentry, hothers⟩ := List.forall_mem_cons.mp h
    have hlead : Shown (lead first) := by cases first <;> decide
    have hmember : Shown (member entry.1 entry.2) :=
      shown_append (shown_string _) (shown_cons (by decide) hentry)
    exact shown_append hlead (shown_append hmember (ih hothers false))

theorem shown_object {entries : List (String × List Char)} (h : ∀ entry ∈ entries, Shown entry.2) :
    Shown (object entries) := by
  rw [object_eq]
  exact shown_cons (by decide) (shown_append (shown_listed h true) (by decide))

theorem shown_payload (p : Payload) : Shown p.json := by
  cases p with
  | text content => exact shown_object (List.forall_mem_singleton.mpr (shown_string _))
  | char content => exact shown_object (List.forall_mem_singleton.mpr (shown_string _))
  | integer value => exact shown_object (List.forall_mem_singleton.mpr (shown_ofInt _))
  | float value => exact shown_object (List.forall_mem_singleton.mpr (shown_double _))

theorem shown_token (t : Token) : Shown t.json := by
  apply shown_object
  simp only [List.forall_mem_cons]
  exact ⟨shown_string _, shown_string _, shown_payload _, shown_toDigits _, shown_toDigits _,
    shown_toDigits _, List.forall_mem_nil _⟩

end Shown

section Framing

/-- Texts without a line feed that are written each on a line are the pieces between the line feeds. -/
theorem splitOn_lines {lines : List (List Char)} (h : ∀ line ∈ lines, '\n' ∉ line) :
    (lines.flatMap (· ++ ['\n'])).splitOn '\n' = lines ++ [[]] := by
  induction lines with
  | nil => rfl
  | cons line lines ih =>
    obtain ⟨hline, hlines⟩ := List.forall_mem_cons.mp h
    have hplain : ∀ c ∈ line, (c == '\n') = false := by
      intro c hc
      exact beq_eq_false_iff_ne.mpr fun hfeed => hline (hfeed ▸ hc)
    rw [List.flatMap_cons, List.append_assoc, List.singleton_append, List.splitOn,
      List.splitOnP_append_cons_of_forall_mem hplain '\n' rfl]
    exact congrArg (line :: ·) (ih hlines)

theorem Shown.not_mem {text : List Char} (h : Shown text) : '\n' ∉ text := by
  intro hfeed
  exact absurd (h '\n' hfeed) (by decide)

end Framing

section Cancelling

variable {rest other : List Char}

theorem string_append_inj {a b : List Char} (h : string a ++ rest = string b ++ other) :
    a = b ∧ rest = other := by
  have hread : Reader.string (string a ++ rest) = .ok (b, other) := by
    rw [h, Reader.string_append]
  rw [Reader.string_append] at hread
  exact Prod.mk.inj (Except.ok.inj hread)

theorem ofNat_append_inj {m n : Nat} (hrest : EndsDigits rest) (hother : EndsDigits other)
    (h : Numeral.ofNat m ++ rest = Numeral.ofNat n ++ other) : m = n ∧ rest = other := by
  have hdigits (k : Nat) : ∀ c ∈ Numeral.ofNat k, c.isDigit = true :=
    fun _ hc => Nat.isDigit_of_mem_toDigits (by decide) (by decide) hc
  have hread : Reader.digits (Numeral.ofNat m ++ rest) = .ok (Numeral.ofNat n, other) := by
    rw [h, Reader.digits_append (hdigits n) hother]
  rw [Reader.digits_append (hdigits m) hrest] at hread
  obtain ⟨htext, hend⟩ := Prod.mk.inj (Except.ok.inj hread)
  exact ⟨Numeral.ofNat_injective htext, hend⟩

variable {entries others : List (String × List Char)}

/-- Two lists of members that begin with the same key go on alike from the values on. -/
theorem listed_cons_cancel {first : Bool} {key : String} {v w : List Char}
    (h : listed first ((key, v) :: entries) ++ rest = listed first ((key, w) :: others) ++ other) :
    v ++ (listed false entries ++ rest) = w ++ (listed false others ++ other) := by
  simp only [listed, member, List.append_assoc, List.cons_append] at h
  have hvalue := List.append_cancel_left (List.append_cancel_left h)
  exact (List.cons.inj hvalue).2

theorem endsDigits_listed (entries : List (String × List Char)) :
    EndsDigits (listed false entries ++ ['}']) := by
  cases entries with
  | nil => exact (endsNumber_cons [] (by decide)).digits
  | cons entry entries => exact (endsNumber_cons _ (by decide)).digits

theorem listed_string_inj {first : Bool} {key : String} {a b : List Char}
    (h : listed first ((key, string a) :: entries) ++ rest =
      listed first ((key, string b) :: others) ++ other) :
    a = b ∧ listed false entries ++ rest = listed false others ++ other :=
  string_append_inj (listed_cons_cancel h)

theorem listed_number_inj {first : Bool} {key : String} {m n : Nat}
    (h : listed first ((key, Numeral.ofNat m) :: entries) ++ ['}'] =
      listed first ((key, Numeral.ofNat n) :: others) ++ ['}']) :
    m = n ∧ listed false entries ++ ['}'] = listed false others ++ ['}'] :=
  ofNat_append_inj (endsDigits_listed entries) (endsDigits_listed others) (listed_cons_cancel h)

end Cancelling

end Json

theorem Kind.eq_of_tag_eq {k l : Kind} (h : k.tag = l.tag) : k = l := by
  have hfound : Kind.ofTag? k.tag = some l := by rw [h, ofTag?_tag]
  rw [ofTag?_tag] at hfound
  exact Option.some.inj hfound

namespace Token

/-- The JSON text of a token tells all of it but for its payload, and that too if its lexeme does. -/
theorem eq_of_json_eq {t u : Token} (hpayload : t.lexeme = u.lexeme → t.payload = u.payload)
    (h : t.json = u.json) : t = u := by
  rw [json, json, Json.object_eq, Json.object_eq] at h
  obtain ⟨htag, hmembers⟩ := Json.listed_string_inj (List.cons.inj h).2
  obtain ⟨htext, hmembers⟩ := Json.listed_string_inj hmembers
  have hkind : t.kind = u.kind := Kind.eq_of_tag_eq (String.toList_inj.mp htag)
  have hlexeme : t.lexeme = u.lexeme := String.toList_inj.mp htext
  have hvalue := Json.listed_cons_cancel hmembers
  rw [hpayload hlexeme] at hvalue
  obtain ⟨hoffset, hmembers⟩ := Json.listed_number_inj (List.append_cancel_left hvalue)
  obtain ⟨hline, hmembers⟩ := Json.listed_number_inj hmembers
  obtain ⟨hcolumn, -⟩ := Json.listed_number_inj hmembers
  replace hpayload : t.payload = u.payload := hpayload hlexeme
  obtain ⟨kind, lexeme, payload, offset, line, column⟩ := t
  obtain ⟨kind', lexeme', payload', offset', line', column'⟩ := u
  obtain rfl : kind = kind' := hkind
  obtain rfl : lexeme = lexeme' := hlexeme
  obtain rfl : payload = payload' := hpayload
  obtain rfl : offset = offset' := hoffset
  obtain rfl : line = line' := hline
  obtain rfl : column = column' := hcolumn
  rfl

end Token

namespace Scanner

/-- Only tokens of the kind of doubles are found with a double. -/
theorem float?_of_mem_drain {s : Scanner} {t : Token} (ht : .ok t ∈ s.drain.1) (hkind : t.kind ≠ .float) :
    t.payload.float? = none := by
  obtain ⟨text, b, hb, htoken⟩ := recognized_of_mem_drain ht
  rw [htoken] at hkind ⊢
  obtain ⟨lexeme, kind, payload⟩ := b
  cases Grammar.formed_of_recognize hb with
  | float lexeme x => exact absurd rfl hkind
  | _ => rfl

/-- No two tokens that scanners find have the same JSON text, doubles without a text of their own
included. -/
theorem eq_of_json_eq {s u : Scanner} {t v : Token} (ht : .ok t ∈ s.drain.1) (hv : .ok v ∈ u.drain.1)
    (h : t.json = v.json) : t = v := by
  apply Token.eq_of_json_eq _ h
  exact fun hlexeme => (eq_of_lexeme_eq ht hv hlexeme).2

theorem eq_of_map_json_eq {s u : Scanner} {tokens others : List Token}
    (htokens : ∀ t ∈ tokens, .ok t ∈ s.drain.1) (hothers : ∀ t ∈ others, .ok t ∈ u.drain.1)
    (h : tokens.map Token.json = others.map Token.json) : tokens = others := by
  induction tokens generalizing others with
  | nil => exact (List.map_eq_nil_iff.mp h.symm).symm
  | cons t tokens ih =>
    cases others with
    | nil => cases h
    | cons v others =>
      obtain ⟨hhead, htail⟩ := List.cons.inj h
      obtain ⟨ht, htokens⟩ := List.forall_mem_cons.mp htokens
      obtain ⟨hv, hothers⟩ := List.forall_mem_cons.mp hothers
      rw [eq_of_json_eq ht hv hhead, ih htokens hothers htail]

theorem mem_drain_of_mem_filterMap {s : Scanner} {t : Token}
    (h : t ∈ s.drain.1.filterMap Except.toOption) : .ok t ∈ s.drain.1 := by
  obtain ⟨item, hitem, ht⟩ := List.mem_filterMap.mp h
  cases item with
  | error e => cases ht
  | ok v =>
    obtain rfl : v = t := Option.some.inj ht
    exact hitem

end Scanner

namespace CommandLine

variable {source : List Char} {mode : Mode} {arguments : List String} {input : String}

theorem splitOn_output (source : List Char) (mode : Mode) :
    (listText .json mode source).output.splitOn '\n' =
      ((Scanner.ofText source mode).drain.1.filterMap Except.toOption).map Token.json ++ [[]] := by
  rw [output_listText, ← Json.splitOn_lines, List.flatMap_map]
  · rfl
  · -- A line feed in a token is written by its letter, so it is no place to cut.
    intro line hline
    obtain ⟨t, -, rfl⟩ := List.mem_map.mp hline
    exact (Json.shown_token t).not_mem

theorem length_of_status (h : (listText .json mode source).status = 0) :
    ∃ (tokens : List Token) (t : Token),
      (Scanner.ofText source mode).drain.1 = (tokens ++ [t]).map .ok ∧ t.position.offset = source.length := by
  obtain ⟨tokens, t, hdrain⟩ := exists_end_of_status h
  obtain ⟨pieces, gap, rest, final, htiling⟩ := Tiling.exists_of_scanner (.ofText source mode)
  have hfinal : final = .ok t := by
    have hitems := hdrain.symm.trans htiling.items
    obtain ⟨-, hlast⟩ := List.append_inj' hitems rfl
    exact (List.singleton_inj.mp hlast).symm
  obtain ⟨-, -, -, hoffset⟩ := htiling.endOfInput t hfinal
  refine ⟨tokens, t, ?_, hoffset.trans (Nat.zero_add _)⟩
  rw [hdrain, List.map_append]
  rfl

/-- Two sources that are listed in JSON with success and with the same output have the same items and the
same length. -/
theorem eq_of_output_eq {source' : List Char} {mode' : Mode}
    (h : (listText .json mode source).status = 0) (h' : (listText .json mode' source').status = 0)
    (houtput : (listText .json mode source).output = (listText .json mode' source').output) :
    (Scanner.ofText source mode).drain.1 = (Scanner.ofText source' mode').drain.1 ∧
      source.length = source'.length := by
  obtain ⟨before, t, hdrain, hoffset⟩ := length_of_status h
  obtain ⟨before', t', hdrain', hoffset'⟩ := length_of_status h'
  have hlines := congrArg (List.splitOn '\n') houtput
  rw [splitOn_output, splitOn_output, hdrain, hdrain', Item.filterMap_toOption_map,
    Item.filterMap_toOption_map] at hlines
  obtain ⟨hjsons, -⟩ := List.append_inj' hlines rfl
  have hmem : ∀ v ∈ before ++ [t], .ok v ∈ (Scanner.ofText source mode).drain.1 := by
    intro v hv
    rw [hdrain]
    exact List.mem_map_of_mem hv
  have hmem' : ∀ v ∈ before' ++ [t'], .ok v ∈ (Scanner.ofText source' mode').drain.1 := by
    intro v hv
    rw [hdrain']
    exact List.mem_map_of_mem hv
  have htokens : before ++ [t] = before' ++ [t'] := Scanner.eq_of_map_json_eq hmem hmem' hjsons
  constructor
  · rw [hdrain, hdrain', htokens]
  · -- Both sources end where the last of their tokens begins.
    obtain ⟨-, hlast⟩ := List.append_inj' htokens rfl
    rw [← hoffset, ← hoffset', List.singleton_inj.mp hlast]

theorem run_json (hjson : jsonFlag ∈ arguments) (input : String) :
    run arguments input.toUTF8 =
      listText .json (listedScanner arguments input).mode (listedText arguments input) := by
  rw [run_eq, if_pos hjson]
  rfl

/-- The output of a run in JSON is cut at its line feeds into the JSON texts of the tokens that its source
drains to, with nothing behind the last line feed, and no text has a control character in it. If there
are no doubles and all places fit into 64 bits, the lines are read back as exactly these tokens. Runs
that succeed with the same output have drained the same items, from sources of the same length. -/
theorem json_output_lines (arguments : List String) (input : String) (hjson : jsonFlag ∈ arguments) :
    let items := (listedScanner arguments input).drain.1
    let tokens := items.filterMap Except.toOption
    let report := run arguments input.toUTF8
    report.output.splitOn '\n' = tokens.map Token.json ++ [[]] ∧
      (∀ t ∈ tokens, ∀ c ∈ t.json, 0x20 ≤ c.toNat) ∧
      ((listedText arguments input).length + 1 < UInt64.size → (∀ t ∈ tokens, t.kind ≠ .float) →
        (report.output.splitOn '\n').dropLast.map Token.ofJson = tokens.map .ok) ∧
      ∀ (arguments' : List String) (input' : String), jsonFlag ∈ arguments' →
        report.status = 0 → (run arguments' input'.toUTF8).status = 0 →
          report.output = (run arguments' input'.toUTF8).output →
            items = (listedScanner arguments' input').drain.1 ∧
              (listedText arguments input).length = (listedText arguments' input').length := by
  intro items tokens report
  have hreport : report = listText .json (listedScanner arguments input).mode (listedText arguments input) :=
    run_json hjson input
  have hlines : report.output.splitOn '\n' = tokens.map Token.json ++ [[]] := by
    rw [hreport]
    exact splitOn_output _ _
  refine ⟨hlines, fun t _ => Json.shown_token t, ?_, ?_⟩
  · intro hlength hkinds
    rw [hlines, List.dropLast_concat, List.map_map]
    apply List.map_congr_left
    intro t ht
    have hmem : .ok t ∈ items := Scanner.mem_drain_of_mem_filterMap ht
    have hfits : t.position.Fits := (Recording.exact_place_of_mem hmem).fits hlength
    have hnone : t.payload.float? = none := Scanner.float?_of_mem_drain hmem (hkinds t ht)
    exact Token.ofJson_of_payload hfits (Json.payload_append hnone)
  · intro arguments' input' hjson' hstatus hstatus' houtput
    rw [hreport] at hstatus houtput
    rw [run_json hjson' input'] at hstatus' houtput
    exact eq_of_output_eq hstatus hstatus' houtput

/-- A literal of a line feed, closed by a quotation mark, which only the lenient mode takes. -/
theorem json_output_lines_feed :
    jsonFlag ∈ ["--lenient", "--json"] ∧
      ((run ["--lenient", "--json"] "'\n\"".toUTF8).output.splitOn '\n').dropLast.map Token.ofJson =
        [.ok ⟨.character, "'\n\"", .char '\n', ⟨0, 1, 1⟩⟩, .ok (Token.endOfInput ⟨3, 2, 2⟩)] := by
  have hjson : jsonFlag ∈ ["--lenient", "--json"] := by decide
  have hitems : (listedScanner ["--lenient", "--json"] "'\n\"").drain.1.filterMap Except.toOption =
      [⟨.character, "'\n\"", .char '\n', ⟨0, 1, 1⟩⟩, Token.endOfInput ⟨3, 2, 2⟩] := by decide +kernel
  obtain ⟨-, -, hread, -⟩ := json_output_lines _ "'\n\"" hjson
  rw [hitems] at hread
  exact ⟨hjson, hread (by decide +kernel) (by decide)⟩

end CommandLine

end Lexemes
