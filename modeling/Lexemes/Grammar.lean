import Lexemes.Number.Numeral
import Lexemes.ScanError
import Lexemes.Token

namespace Lexemes

/-- Whether a character literal needs its closing quote, or takes any character in its place. -/
inductive Mode
  | strict
  | lenient
deriving DecidableEq, Repr

namespace Grammar

def isWordPart (c : Char) : Bool := c.isAlphanum || c == '_'

def isNumberStart (c : Char) : Bool := c.isDigit || c == '-'

def isNumberPart (c : Char) : Bool := c.isDigit || c == '.'

/-- The kind of a word: a reserved word, or an identifier, which a capital first letter makes a lambda
identifier. -/
def wordKind (word : String) : Kind :=
  match Keyword.ofSpelling? word with
  | some reserved => .keyword reserved
  | none => if word.toList.head?.any Char.isUpper then .lambdaIdentifier else .identifier

/-- The kind and the value of a run of number characters. Without a point it is to be a whole number
of 64 bits and with one point a double. -/
def number? (run : List Char) : Option (Kind × Payload) :=
  match run.count '.' with
  | 0 => (Numeral.integer? run).map fun n => (.integer, .integer n)
  | 1 => (Numeral.float? run).map fun x => (.float, .float x)
  | _ => none

/-- What a text begins with: the characters of the token, its kind and what it stands for. -/
structure Beginning where
  lexeme : List Char
  kind : Kind
  payload : Payload

def Beginning.token (b : Beginning) (position : Position) : Token :=
  ⟨b.kind, String.ofList b.lexeme, b.payload, position⟩

def numberRun (run : List Char) : Except Fault Beginning :=
  match number? run with
  | some (kind, payload) => .ok ⟨run, kind, payload⟩
  | none => .error (.malformed (String.ofList run))

def quoted (mode : Mode) (rest : List Char) : Except Fault Beginning :=
  match mode, rest with
  | .strict, c :: close :: _ =>
    if close = '\'' then .ok ⟨['\'', c, close], .character, .char c⟩ else .error .unterminated
  | .lenient, c :: close :: _ => .ok ⟨['\'', c, close], .character, .char c⟩
  -- At the end of the text there is nothing to take in place of the closing quote.
  | .lenient, [c] => .ok ⟨['\'', c], .character, .char c⟩
  | _, _ => .error .unterminated

/-- What a text that does not begin with a blank begins with. -/
def recognize (mode : Mode) (text : List Char) : Except Fault Beginning :=
  match text with
  | [] => .ok ⟨[], .endOfInput, .text ""⟩
  | c :: rest =>
    match Punctuation.ofChar? c with
    | some mark => .ok ⟨[c], .punctuation mark, .text (String.ofList [c])⟩
    | none =>
      if c.isAlpha then
        let word := c :: rest.takeWhile isWordPart
        .ok ⟨word, wordKind (String.ofList word), .text (String.ofList word)⟩
      else if isNumberStart c then numberRun (c :: rest.takeWhile isNumberPart)
      else if c = '\'' then quoted mode rest
      else .error (.unknown c)

theorem lexeme_of_numberRun {run : List Char} {b : Beginning} (h : numberRun run = .ok b) :
    b.lexeme = run := by
  unfold numberRun at h
  cases hn : number? run with
  | none =>
    rw [hn] at h
    cases h
  | some found =>
    rw [hn] at h
    cases h
    rfl

theorem lexeme_of_quoted {mode : Mode} {rest : List Char} {b : Beginning}
    (h : quoted mode rest = .ok b) : ∃ tail, b.lexeme = '\'' :: tail := by
  rcases rest with _ | ⟨c, _ | ⟨close, rest⟩⟩
  · cases mode <;> cases h
  · cases mode <;> cases h
    exact ⟨_, rfl⟩
  · cases mode with
    | lenient =>
      cases h
      exact ⟨_, rfl⟩
    | strict =>
      by_cases hq : close = '\''
      · simp only [quoted, hq, if_true] at h
        cases h
        exact ⟨_, rfl⟩
      · simp only [quoted, hq, if_false] at h
        cases h

/-- Whatever is recognized keeps the first character of its text. -/
theorem lexeme_of_recognize {mode : Mode} {c : Char} {rest : List Char} {b : Beginning}
    (h : recognize mode (c :: rest) = .ok b) : ∃ tail, b.lexeme = c :: tail := by
  simp only [recognize] at h
  cases hm : Punctuation.ofChar? c with
  | some mark =>
    rw [hm] at h
    cases h
    exact ⟨_, rfl⟩
  | none =>
    simp only [hm] at h
    by_cases ha : c.isAlpha = true
    · rw [if_pos ha] at h
      cases h
      exact ⟨_, rfl⟩
    rw [if_neg ha] at h
    by_cases hn : isNumberStart c = true
    · rw [if_pos hn] at h
      exact ⟨_, lexeme_of_numberRun h⟩
    rw [if_neg hn] at h
    by_cases hq : c = '\''
    · rw [if_pos hq] at h
      exact hq ▸ lexeme_of_quoted h
    · rw [if_neg hq] at h
      cases h

end Grammar

end Lexemes
