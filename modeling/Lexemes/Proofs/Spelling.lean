import Lexemes.CommandLine
import Mathlib.Data.List.TakeWhile

/-! The texts that the command line writes, spelled out: plain rows, rows in JSON, messages and
quotations, each next to the proof that this is what is written. -/
namespace Lexemes.Spelling

/-- The two words for each kind: its name in plain rows and its tag in JSON. -/
def words : List (Kind × String × String) :=
  [(.keyword .ifWord, "IF", "If"),
   (.keyword .thenWord, "THEN", "Then"),
   (.keyword .elseWord, "ELSE", "Else"),
   (.keyword .letWord, "LET", "Let"),
   (.keyword .inWord, "IN", "In"),
   (.punctuation .leftParen, "LPAREN", "LeftParen"),
   (.punctuation .rightParen, "RPAREN", "RightParen"),
   (.punctuation .leftBracket, "LBRACKET", "LeftBracket"),
   (.punctuation .rightBracket, "RBRACKET", "RightBracket"),
   (.punctuation .colon, "COLON", "Colon"),
   (.punctuation .comma, "COMMA", "Comma"),
   (.punctuation .dot, "DOT", "Dot"),
   (.punctuation .semicolon, "SEMICOLON", "Semicolon"),
   (.punctuation .backslash, "BACKSLASH", "Backslash"),
   (.punctuation .equals, "EQUALS", "Equals"),
   (.identifier, "IDENTIFIER", "Identifier"),
   (.lambdaIdentifier, "LAMBDA_IDENTIFIER", "LambdaIdentifier"),
   (.character, "CHARACTER", "Character"),
   (.integer, "INTEGER", "Integer"),
   (.float, "FLOAT", "Float"),
   (.endOfInput, "END_OF_INPUT", "EndOfInput")]

def name (k : Kind) : String := ((words.lookup k).map Prod.fst).getD ""

def tag (k : Kind) : String := ((words.lookup k).map Prod.snd).getD ""

/-- A character by its letter in a table, behind a backslash, or as it is written without one. -/
def escaped (letters : List (Char × Char)) (other : Char → List Char) (c : Char) : List Char :=
  match letters.lookup c with
  | some letter => ['\\', letter]
  | none => other c

def quotation (escape : Char → List Char) (text : List Char) : List Char :=
  ['"'] ++ text.flatMap escape ++ ['"']

/-- A character of a quoted source. One that is taken not to show is written by its number. -/
def reportEscape (hidden : Nat → Bool) : Char → List Char :=
  escaped [('"', '"'), ('\\', '\\'), ('\x00', '0'), ('\t', 't'), ('\n', 'n'), ('\r', 'r')] fun c =>
    if hidden c.toNat then ['\\', 'u', '{'] ++ Nat.toDigits 16 c.toNat ++ ['}'] else [c]

/-- A character of a string in JSON. A control character without a letter is written by its number. -/
def jsonEscape : Char → List Char :=
  escaped
    [('"', '"'), ('\\', '\\'), ('\x08', 'b'), ('\t', 't'), ('\n', 'n'), ('\x0c', 'f'), ('\r', 'r')]
    fun c =>
      if c.toNat < 0x20 then ['\\', 'u'] ++ (Nat.toDigits 16 c.toNat).leftpad 4 '0' else [c]

def number (n : Int) : List Char := (toString n).toList

def value : Payload → List Char
  | .text content => content.toList
  | .char content => ['\'', content, '\'']
  | .integer n => number n.toInt
  | .float x => x.display

/-- A token in a plain row: its line to the right of four columns, its column to the left of three, the
name of its kind to the left of eighteen, and its value. -/
def row (t : Token) : List Char :=
  [' ', ' '] ++ (number t.position.line).leftpad 4 ' ' ++ [':'] ++
    (number t.position.column).rightpad 3 ' ' ++ [' '] ++ (name t.kind).toList.rightpad 18 ' ' ++ [' '] ++
    value t.payload

def member (key : String) (value : List Char) : List Char :=
  ['"'] ++ key.toList ++ ['"', ':'] ++ value

def jsonValue : Payload → List Char
  | .text content => member "Text" (quotation jsonEscape content.toList)
  | .char content => member "Char" (quotation jsonEscape [content])
  | .integer n => member "Integer" (number n.toInt)
  | .float x => member "Float" (Json.double x)

/-- A token in a row of JSON: one object, in which the value is another one. -/
def jsonRow (t : Token) : List Char :=
  ['{'] ++ member "kind" (['"'] ++ (tag t.kind).toList ++ ['"']) ++
    [','] ++ member "lexeme" (quotation jsonEscape t.lexeme.toList) ++
    [','] ++ member "value" (['{'] ++ jsonValue t.payload ++ ['}']) ++
    [','] ++ member "offset" (number t.position.offset) ++
    [','] ++ member "line" (number t.position.line) ++
    [','] ++ member "column" (number t.position.column) ++ ['}']

def fault : Fault → List Char
  | .unknown c => "Unknown token '".toList ++ [c, '\'']
  | .malformed lexeme => "Malformed number '".toList ++ lexeme.toList ++ ['\'']
  | .unterminated => "Unterminated character literal".toList

def message (e : ScanError) : List Char :=
  fault e.fault ++ " at line ".toList ++ number e.position.line ++
    ", column ".toList ++ number e.position.column ++
    " (offset ".toList ++ number e.position.offset ++ [')']

/-- The characters with the Unicode property White_Space. -/
def WhiteSpace (c : Char) : Prop :=
  c.toNat ∈ [0x9, 0xa, 0xb, 0xc, 0xd, 0x20, 0x85, 0xa0, 0x1680, 0x2000, 0x2001, 0x2002, 0x2003, 0x2004,
    0x2005, 0x2006, 0x2007, 0x2008, 0x2009, 0x200a, 0x2028, 0x2029, 0x202f, 0x205f, 0x3000]

/-- What is left of a text without the white space at its two ends. -/
structure Trims (text core : List Char) : Prop where
  split : ∃ before behind, text = before ++ (core ++ behind) ∧
    (∀ c ∈ before, WhiteSpace c) ∧ ∀ c ∈ behind, WhiteSpace c
  head : ∀ c ∈ core.head?, ¬WhiteSpace c
  last : ∀ c ∈ core.getLast?, ¬WhiteSpace c

theorem name_eq : ∀ k : Kind, name k = k.name := Kind.forall_of_all (by decide)

theorem tag_eq : ∀ k : Kind, tag k = k.tag := Kind.forall_of_all (by decide)

theorem number_ofNat (n : Nat) : number n = Numeral.ofNat n := Nat.toList_repr

theorem number_eq (n : Int) : number n = Numeral.ofInt n := by
  cases n with
  | ofNat n => exact number_ofNat n
  | negSucc n =>
    have hsign : "-".toList = ['-'] := by decide
    show ("-" ++ (n + 1).repr).toList = _
    rw [String.toList_append, Nat.toList_repr, hsign, Numeral.ofInt, if_pos (Int.negSucc_lt_zero n)]
    rfl

theorem value_eq (p : Payload) : value p = p.display := by
  cases p with
  | integer n => exact number_eq n.toInt
  | _ => rfl

theorem fault_eq (f : Fault) : fault f = f.message := by
  cases f <;> rfl

theorem reportEscape_eq (hidden : Nat → Bool) (c : Char) :
    reportEscape hidden c = Text.Quoted.escapeHiding hidden c := by
  by_cases hletter : c ∈ ['"', '\\', '\x00', '\t', '\n', '\r']
  · simp only [List.mem_cons, List.not_mem_nil, or_false] at hletter
    rcases hletter with rfl | rfl | rfl | rfl | rfl | rfl <;> rfl
  · simp only [List.mem_cons, List.not_mem_nil, or_false, not_or] at hletter
    simp [reportEscape, escaped, List.lookup_cons, beq_false_of_ne, Text.Quoted.escapeHiding, *]

theorem leftpad_toDigits : ∀ n < 0x20,
    (Nat.toDigits 16 n).leftpad 4 '0' = ['0', '0', (n / 16).digitChar, (n % 16).digitChar] := by
  decide

theorem jsonEscape_eq (c : Char) : jsonEscape c = Json.escape c := by
  by_cases hletter : c ∈ ['"', '\\', '\x08', '\t', '\n', '\x0c', '\r']
  · simp only [List.mem_cons, List.not_mem_nil, or_false] at hletter
    rcases hletter with rfl | rfl | rfl | rfl | rfl | rfl | rfl <;> rfl
  · simp only [List.mem_cons, List.not_mem_nil, or_false, not_or] at hletter
    by_cases hcontrol : c.toNat < 0x20
    · have hdigits := leftpad_toDigits c.toNat hcontrol
      simp_all [jsonEscape, escaped, List.lookup_cons, beq_false_of_ne, Json.escape, Json.controlLetter?]
    · simp [jsonEscape, escaped, List.lookup_cons, beq_false_of_ne, Json.escape, Json.controlLetter?, *]

theorem quoteHiding_eq (hidden : Nat → Bool) (text : List Char) :
    Text.Quoted.quoteHiding hidden text = quotation (reportEscape hidden) text := by
  rw [Text.Quoted.quoteHiding, ← funext (reportEscape_eq hidden)]
  rfl

theorem string_eq (text : List Char) : Json.string text = quotation jsonEscape text := by
  rw [Json.string, ← funext jsonEscape_eq]
  rfl

theorem row_eq (t : Token) : CommandLine.plainLine t = row t := by
  unfold CommandLine.plainLine row
  rw [number_ofNat, number_ofNat, name_eq, value_eq]
  simp only [List.append_assoc, List.cons_append, List.nil_append]
  rfl

theorem member_eq {key : String} (h : key.toList.flatMap Json.escape = key.toList) (value : List Char) :
    Json.member key value = member key value := by
  rw [Json.member, Json.string, h]
  simp [member]

/-- There is nothing to escape in the tag of a kind. -/
theorem flatMap_tag : ∀ k : Kind, k.tag.toList.flatMap Json.escape = k.tag.toList :=
  Kind.forall_of_all (by decide)

theorem kind_eq (k : Kind) : k.json = ['"'] ++ (tag k).toList ++ ['"'] := by
  rw [Kind.json, Json.string, flatMap_tag, tag_eq]
  rfl

theorem jsonValue_eq (p : Payload) : p.json = ['{'] ++ jsonValue p ++ ['}'] := by
  have hsingle (key : String) (value : List Char) :
      Json.object [(key, value)] = ['{'] ++ Json.member key value ++ ['}'] := by
    simp [Json.object, List.intercalate]
  cases p with
  | text content => rw [Payload.json, hsingle, member_eq (by decide), string_eq, jsonValue]
  | char content => rw [Payload.json, hsingle, member_eq (by decide), string_eq, jsonValue]
  | integer n => rw [Payload.json, hsingle, member_eq (by decide), ← number_eq, jsonValue]
  | float x => rw [Payload.json, hsingle, member_eq (by decide), jsonValue]

theorem jsonRow_eq (t : Token) : t.json = jsonRow t := by
  unfold Token.json jsonRow
  rw [Json.object, kind_eq, jsonValue_eq, string_eq, ← number_ofNat, ← number_ofNat, ← number_ofNat]
  simp only [List.map_cons, List.map_nil]
  rw [member_eq (by decide), member_eq (by decide), member_eq (by decide), member_eq (by decide),
    member_eq (by decide), member_eq (by decide)]
  simp [List.intercalate]

theorem message_eq (e : ScanError) : e.message = message e := by
  unfold ScanError.message message
  rw [number_ofNat, number_ofNat, number_ofNat, fault_eq]

theorem isWhiteSpace_iff (c : Char) : Text.isWhiteSpace c = true ↔ WhiteSpace c := by
  have heq (d : Char) : c = d ↔ c.toNat = d.toNat := Char.toNat_inj.symm
  have hle (d e : Char) : d ≤ e ↔ d.toNat ≤ e.toNat := UInt32.le_iff_toNat_le
  simp only [Text.isWhiteSpace, Text.isBlank, Bool.or_eq_true, Bool.and_eq_true, decide_eq_true_eq,
    beq_iff_eq, heq, hle, WhiteSpace, List.mem_cons, List.not_mem_nil, or_false, Char.reduceToNat]
  omega

theorem isWhiteSpace_eq_false_iff (c : Char) : Text.isWhiteSpace c = false ↔ ¬WhiteSpace c := by
  rw [← isWhiteSpace_iff, Bool.not_eq_true]

theorem dropWhile_append_of_head {p : Char → Bool} {before text : List Char}
    (hbefore : ∀ c ∈ before, p c = true) (hhead : ∀ c ∈ text.head?, p c = false) :
    (before ++ text).dropWhile p = text := by
  rw [List.dropWhile_append_of_pos hbefore]
  cases text with
  | nil => rfl
  | cons c text => exact List.dropWhile_cons_of_neg (by simp [hhead c rfl])

theorem head_dropWhile {p : Char → Bool} (text : List Char) :
    ∀ c ∈ (text.dropWhile p).head?, p c = false := by
  intro c hc
  have hhead := List.head?_dropWhile_not p text
  rw [hc] at hhead
  exact hhead

theorem Trims.eq_trim {text core : List Char} (h : Trims text core) : core = Text.trim text := by
  obtain ⟨⟨before, behind, rfl, hbefore, hbehind⟩, hhead, hlast⟩ := h
  have hlead : ∀ c ∈ before, Text.isWhiteSpace c = true := fun c hc => (isWhiteSpace_iff c).mpr (hbefore c hc)
  have hend : ∀ c ∈ behind, Text.isWhiteSpace c = true := fun c hc => (isWhiteSpace_iff c).mpr (hbehind c hc)
  cases core with
  | nil =>
    have hnone : (before ++ ([] ++ behind)).dropWhile Text.isWhiteSpace = [] :=
      List.dropWhile_eq_nil_iff.mpr (List.forall_mem_append.mpr ⟨hlead, hend⟩)
    rw [Text.trim, hnone]
    rfl
  | cons c core =>
    have hfirst : ∀ d ∈ (c :: core ++ behind).head?, Text.isWhiteSpace d = false :=
      fun d hd => (isWhiteSpace_eq_false_iff d).mpr (hhead d hd)
    have hfinal : ∀ d ∈ (c :: core).reverse.head?, Text.isWhiteSpace d = false := by
      intro d hd
      rw [List.head?_reverse] at hd
      exact (isWhiteSpace_eq_false_iff d).mpr (hlast d hd)
    have hreversed : ∀ d ∈ behind.reverse, Text.isWhiteSpace d = true :=
      fun d hd => hend d (List.mem_reverse.mp hd)
    rw [Text.trim, dropWhile_append_of_head hlead hfirst, List.reverse_append,
      dropWhile_append_of_head hreversed hfinal, List.reverse_reverse]

/-- Trimming takes white space off the start first, and then off the end of what is left. -/
theorem dropWhile_eq_trim_append (text : List Char) :
    text.dropWhile Text.isWhiteSpace =
      Text.trim text ++
        ((text.dropWhile Text.isWhiteSpace).reverse.takeWhile Text.isWhiteSpace).reverse := by
  rw [Text.trim, ← List.reverse_append, List.takeWhile_append_dropWhile, List.reverse_reverse]

theorem trims_trim (text : List Char) : Trims text (Text.trim text) where
  split := by
    let behind := ((text.dropWhile Text.isWhiteSpace).reverse.takeWhile Text.isWhiteSpace).reverse
    refine ⟨text.takeWhile Text.isWhiteSpace, behind, ?_, ?_, ?_⟩
    · rw [← dropWhile_eq_trim_append, List.takeWhile_append_dropWhile]
    · exact fun c hc => (isWhiteSpace_iff c).mp (List.mem_takeWhile_imp hc)
    · exact fun c hc => (isWhiteSpace_iff c).mp (List.mem_takeWhile_imp (List.mem_reverse.mp hc))
  head := by
    intro c hc
    have hrest : c ∈ (text.dropWhile Text.isWhiteSpace).head? := by
      rw [dropWhile_eq_trim_append, List.head?_append, hc]
      rfl
    exact (isWhiteSpace_eq_false_iff c).mp (head_dropWhile text c hrest)
  last := by
    intro c hc
    rw [Text.trim, List.getLast?_reverse] at hc
    exact (isWhiteSpace_eq_false_iff c).mp (head_dropWhile _ c hc)

end Lexemes.Spelling
