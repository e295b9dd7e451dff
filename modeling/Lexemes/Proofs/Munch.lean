import Lexemes.Grammar
import Lexemes.Text.Blank
import Mathlib.Data.List.Infix
import Mathlib.Data.List.TakeWhile

/-! The grammar of the lambda language as a relation: which texts are words and runs of number
characters, and what a text begins with by the longest match. `Grammar.recognize` computes this
relation (`reads_iff`). -/
namespace Lexemes.Grammar

/-- The longest of the texts of a class that a text begins with. -/
structure Longest (member : List Char → Prop) (text found : List Char) : Prop where
  begins : found <+: text
  mem : member found
  length_le : ∀ other, other <+: text → member other → other.length ≤ found.length

def Letter (c : Char) : Prop := ('A' ≤ c ∧ c ≤ 'Z') ∨ ('a' ≤ c ∧ c ≤ 'z')

def Digit (c : Char) : Prop := '0' ≤ c ∧ c ≤ '9'

/-- The six characters that may stand between tokens. -/
def Blank (c : Char) : Prop :=
  c = ' ' ∨ c = '\t' ∨ c = '\n' ∨ c = '\x0b' ∨ c = '\x0c' ∨ c = '\r'

/-- The ten characters that are tokens by themselves, each with the mark that it is. -/
inductive Mark : Char → Punctuation → Prop
  | leftParen : Mark '(' .leftParen
  | rightParen : Mark ')' .rightParen
  | leftBracket : Mark '[' .leftBracket
  | rightBracket : Mark ']' .rightBracket
  | colon : Mark ':' .colon
  | comma : Mark ',' .comma
  | dot : Mark '.' .dot
  | semicolon : Mark ';' .semicolon
  | backslash : Mark '\\' .backslash
  | equals : Mark '=' .equals

instance : DecidablePred Letter := fun _ => inferInstanceAs (Decidable (_ ∨ _))

instance : DecidablePred Digit := fun _ => inferInstanceAs (Decidable (_ ∧ _))

instance : DecidablePred Blank := fun _ => inferInstanceAs (Decidable (_ ∨ _))

/-- The texts of one character of a first class and any number of characters of a second one. -/
def Shape (first part : Char → Prop) : List Char → Prop
  | [] => False
  | c :: tail => first c ∧ ∀ d ∈ tail, part d

instance {first part : Char → Prop} [DecidablePred first] [DecidablePred part] :
    DecidablePred (Shape first part)
  | [] => .isFalse id
  | c :: tail => @instDecidableAnd (first c) _ _ (List.decidableBAll part tail)

/-- The words, `[A-Za-z][A-Za-z0-9_]*`. -/
def Word : List Char → Prop :=
  Shape Letter fun d => Letter d ∨ Digit d ∨ d = '_'

instance : DecidablePred Word :=
  inferInstanceAs (DecidablePred (Shape Letter fun d => Letter d ∨ Digit d ∨ d = '_'))

/-- The runs of number characters, `[-0-9][0-9.]*`. -/
def NumberRun : List Char → Prop :=
  Shape (fun c => Digit c ∨ c = '-') fun d => Digit d ∨ d = '.'

/-- Whether the character literal that a text begins with is complete. In the strict mode its third
character is a quote, and in the lenient mode it has a second one. -/
def Closed : Mode → List Char → Prop
  | .strict, text => text[2]? = some '\''
  | .lenient, text => 2 ≤ text.length

/-- What a text that does not begin with a blank begins with, one rule for each shape of token and
for each fault. -/
inductive Reads (mode : Mode) : List Char → Except Fault Beginning → Prop
  | endOfInput : Reads mode [] (.ok ⟨[], .endOfInput, .text ""⟩)
  | punctuation {c : Char} {mark : Punctuation} (hmark : Mark c mark) (rest : List Char) :
      Reads mode (c :: rest) (.ok ⟨[c], .punctuation mark, .text (String.ofList [c])⟩)
  | word {c : Char} {rest found : List Char} (hc : Letter c)
      (hfound : Longest Word (c :: rest) found) :
      Reads mode (c :: rest)
        (.ok ⟨found, wordKind (String.ofList found), .text (String.ofList found)⟩)
  | number {c : Char} {rest found : List Char} {kind : Kind} {payload : Payload}
      (hc : Digit c ∨ c = '-') (hfound : Longest NumberRun (c :: rest) found)
      (hkind : kind = .integer ∨ kind = .float) (hvalue : number? found = some (kind, payload)) :
      Reads mode (c :: rest) (.ok ⟨found, kind, payload⟩)
  | malformed {c : Char} {rest found : List Char}
      (hc : Digit c ∨ c = '-') (hfound : Longest NumberRun (c :: rest) found)
      (hvalue : number? found = none) :
      Reads mode (c :: rest) (.error (.malformed (String.ofList found)))
  | character {c : Char} {rest : List Char} (hclosed : Closed mode ('\'' :: c :: rest)) :
      Reads mode ('\'' :: c :: rest)
        (.ok ⟨('\'' :: c :: rest).take 3, .character, .char c⟩)
  | unterminated {rest : List Char} (hopen : ¬Closed mode ('\'' :: rest)) :
      Reads mode ('\'' :: rest) (.error .unterminated)
  | unknown {c : Char} {rest : List Char} (hmark : ∀ mark, ¬Mark c mark)
      (hletter : ¬Letter c) (hnumber : ¬(Digit c ∨ c = '-')) (hquote : c ≠ '\'') :
      Reads mode (c :: rest) (.error (.unknown c))

theorem isAlpha_iff_letter (c : Char) : c.isAlpha = true ↔ Letter c := by
  change (decide (c.val ≥ 'A'.val ∧ c.val ≤ 'Z'.val) ||
    (decide (c.val ≥ 'a'.val) && decide (c.val ≤ 'z'.val))) = true ↔ _
  rw [Bool.or_eq_true, Bool.and_eq_true, decide_eq_true_iff, decide_eq_true_iff, decide_eq_true_iff]
  exact Iff.rfl

theorem isDigit_iff_digit (c : Char) : c.isDigit = true ↔ Digit c := by
  change (decide (c.val ≥ '0'.val) && decide (c.val ≤ '9'.val)) = true ↔ _
  rw [Bool.and_eq_true, decide_eq_true_iff, decide_eq_true_iff]
  exact Iff.rfl

theorem isWordPart_iff (c : Char) :
    isWordPart c = true ↔ Letter c ∨ Digit c ∨ c = '_' := by
  change (c.isAlpha || c.isDigit || c == '_') = true ↔ _
  rw [Bool.or_eq_true, Bool.or_eq_true, isAlpha_iff_letter, isDigit_iff_digit, beq_iff_eq, or_assoc]

theorem isNumberStart_iff (c : Char) : isNumberStart c = true ↔ Digit c ∨ c = '-' := by
  rw [isNumberStart, Bool.or_eq_true, isDigit_iff_digit, beq_iff_eq]

theorem isNumberPart_iff (c : Char) : isNumberPart c = true ↔ Digit c ∨ c = '.' := by
  rw [isNumberPart, Bool.or_eq_true, isDigit_iff_digit, beq_iff_eq]

theorem isBlank_iff (c : Char) : Text.isBlank c = true ↔ Blank c := by
  simp only [Text.isBlank, Blank, Bool.or_eq_true, beq_iff_eq, or_assoc]

theorem isBlank_eq_false_iff (c : Char) : Text.isBlank c = false ↔ ¬Blank c := by
  rw [← isBlank_iff, Bool.not_eq_true]

theorem Longest.unique {member : List Char → Prop} {text a b : List Char}
    (ha : Longest member text a) (hb : Longest member text b) : a = b := by
  have hab := hb.length_le a ha.begins ha.mem
  have hba := ha.length_le b hb.begins hb.mem
  exact (List.prefix_of_prefix_length_le ha.begins hb.begins hab).eq_of_length
    (Nat.le_antisymm hab hba)

/-- The longest run of a class of characters is the longest text of such characters only. -/
theorem longest_takeWhile {part : Char → Prop} {p : Char → Bool} (hp : ∀ d, p d = true ↔ part d)
    (text : List Char) : Longest (fun run => ∀ c ∈ run, part c) text (text.takeWhile p) where
  begins := List.takeWhile_prefix p
  mem := fun c hc => (hp c).mp (List.mem_takeWhile_imp hc)
  length_le := by
    rintro other ⟨rest, rfl⟩ hall
    rw [List.takeWhile_append_of_pos fun c hc => (hp c).mpr (hall c hc), List.length_append]
    exact Nat.le_add_right _ _

theorem longest_blanks (text : List Char) :
    Longest (fun run => ∀ c ∈ run, Blank c) text (text.takeWhile Text.isBlank) :=
  longest_takeWhile isBlank_iff text

theorem longest_shape {first part : Char → Prop} {p : Char → Bool}
    (hp : ∀ d, p d = true ↔ part d) {c : Char} (hc : first c) (rest : List Char) :
    Longest (Shape first part) (c :: rest) (c :: rest.takeWhile p) where
  begins := (List.prefix_cons_inj c).mpr (List.takeWhile_prefix p)
  mem := ⟨hc, fun d hd => (hp d).mp (List.mem_takeWhile_imp hd)⟩
  length_le := by
    intro other hbegins hmem
    cases other with
    | nil => exact Nat.zero_le _
    | cons d tail =>
      have htail := (List.cons_prefix_cons.mp hbegins).2
      exact Nat.succ_le_succ ((longest_takeWhile hp rest).length_le tail htail hmem.2)

theorem mark_symbol (mark : Punctuation) : Mark mark.symbol mark := by
  cases mark <;> constructor

theorem Mark.eq_symbol {c : Char} {mark : Punctuation} (h : Mark c mark) : c = mark.symbol := by
  cases h <;> rfl

theorem ofChar?_of_mark {c : Char} {mark : Punctuation} (h : Mark c mark) :
    Punctuation.ofChar? c = some mark := by
  cases h <;> decide

theorem mark_of_ofChar? {c : Char} {mark : Punctuation} (h : Punctuation.ofChar? c = some mark) :
    Mark c mark := by
  have hfound := List.find?_some h
  rw [← beq_iff_eq.mp hfound]
  exact mark_symbol mark

theorem ofChar?_eq_none_iff (c : Char) :
    Punctuation.ofChar? c = none ↔ ∀ mark, ¬Mark c mark := by
  constructor
  · intro h mark hc
    rw [ofChar?_of_mark hc] at h
    cases h
  · intro h
    cases hm : Punctuation.ofChar? c with
    | none => rfl
    | some mark => exact absurd (mark_of_ofChar? hm) (h mark)

theorem ofChar?_of_isAlpha {c : Char} (h : c.isAlpha = true) : Punctuation.ofChar? c = none := by
  rw [ofChar?_eq_none_iff]
  intro mark hc
  cases hc <;> cases h

theorem ofChar?_of_isNumberStart {c : Char} (h : isNumberStart c = true) :
    Punctuation.ofChar? c = none := by
  rw [ofChar?_eq_none_iff]
  intro mark hc
  cases hc <;> cases h

theorem isAlpha_of_isNumberStart {c : Char} (h : isNumberStart c = true) : c.isAlpha = false := by
  rcases (isNumberStart_iff c).mp h with hd | rfl
  · apply eq_false_of_ne_true
    intro ha
    have hd9 : c.val.toNat ≤ 57 := hd.2
    rcases (isAlpha_iff_letter c).mp ha with hu | hl
    · have hu65 : 65 ≤ c.val.toNat := hu.1
      omega
    · have hl97 : 97 ≤ c.val.toNat := hl.1
      omega
  · decide

section Equations

variable {mode : Mode} {c : Char} {rest : List Char}

theorem recognize_mark {mark : Punctuation} (h : Mark c mark) (rest : List Char) :
    recognize mode (c :: rest) = .ok ⟨[c], .punctuation mark, .text (String.ofList [c])⟩ := by
  rw [recognize, ofChar?_of_mark h]

theorem recognize_letter (h : c.isAlpha = true) :
    recognize mode (c :: rest) =
      .ok ⟨c :: rest.takeWhile isWordPart,
        wordKind (String.ofList (c :: rest.takeWhile isWordPart)),
        .text (String.ofList (c :: rest.takeWhile isWordPart))⟩ := by
  rw [recognize, ofChar?_of_isAlpha h]
  exact if_pos h

theorem recognize_numberStart (h : isNumberStart c = true) :
    recognize mode (c :: rest) = numberRun (c :: rest.takeWhile isNumberPart) := by
  rw [recognize, ofChar?_of_isNumberStart h]
  exact (if_neg (by simp [isAlpha_of_isNumberStart h])).trans (if_pos h)

/-- A text that is a word from end to end is read as a whole. -/
theorem recognize_word {lexeme : List Char} (h : Word lexeme) :
    recognize mode lexeme =
      .ok ⟨lexeme, wordKind (String.ofList lexeme), .text (String.ofList lexeme)⟩ := by
  cases lexeme with
  | nil => exact absurd h id
  | cons c tail =>
    have hwhole : tail.takeWhile isWordPart = tail :=
      List.takeWhile_eq_self_iff.mpr fun d hd => (isWordPart_iff d).mpr (h.2 d hd)
    rw [recognize_letter ((isAlpha_iff_letter c).mpr h.1), hwhole]

theorem recognize_run {run : List Char} (h : NumberRun run) : recognize mode run = numberRun run := by
  cases run with
  | nil => exact absurd h id
  | cons c tail =>
    have hwhole : tail.takeWhile isNumberPart = tail :=
      List.takeWhile_eq_self_iff.mpr fun d hd => (isNumberPart_iff d).mpr (h.2 d hd)
    rw [recognize_numberStart ((isNumberStart_iff c).mpr h.1), hwhole]

theorem recognize_quote : recognize mode ('\'' :: rest) = quoted mode rest := rfl

theorem recognize_other (hmark : Punctuation.ofChar? c = none) (hletter : ¬c.isAlpha = true)
    (hnumber : ¬isNumberStart c = true) (hquote : c ≠ '\'') :
    recognize mode (c :: rest) = .error (.unknown c) := by
  rw [recognize, hmark]
  exact (if_neg hletter).trans ((if_neg hnumber).trans (if_neg hquote))

theorem quoted_of_closed (h : Closed mode ('\'' :: c :: rest)) :
    quoted mode (c :: rest) = .ok ⟨('\'' :: c :: rest).take 3, .character, .char c⟩ := by
  cases mode with
  | strict =>
    cases rest with
    | nil => cases h
    | cons close rest =>
      have hclose : close = '\'' := Option.some.inj h
      exact if_pos hclose
  | lenient => cases rest <;> rfl

theorem quoted_of_not_closed (h : ¬Closed mode ('\'' :: rest)) :
    quoted mode rest = .error .unterminated := by
  rcases rest with _ | ⟨c, _ | ⟨close, rest⟩⟩
  · cases mode <;> rfl
  · cases mode with
    | strict => rfl
    | lenient => exact absurd (Nat.le_refl 2) h
  · cases mode with
    | strict => exact if_neg fun hclose => h (congrArg some hclose)
    | lenient => exact absurd (Nat.le_add_left 2 _) h

end Equations

theorem exists_of_number? {run : List Char} {kind : Kind} {payload : Payload}
    (h : number? run = some (kind, payload)) :
    (kind = .integer ∧ ∃ n, payload = .integer n) ∨ (kind = .float ∧ ∃ x, payload = .float x) := by
  unfold number? at h
  split at h
  · obtain ⟨n, -, hn⟩ := Option.map_eq_some_iff.mp h
    obtain ⟨rfl, rfl⟩ := Prod.mk.inj hn
    exact Or.inl ⟨rfl, n, rfl⟩
  · obtain ⟨x, -, hx⟩ := Option.map_eq_some_iff.mp h
    obtain ⟨rfl, rfl⟩ := Prod.mk.inj hx
    exact Or.inr ⟨rfl, x, rfl⟩
  · cases h

theorem kind_of_number? {run : List Char} {kind : Kind} {payload : Payload}
    (h : number? run = some (kind, payload)) : kind = .integer ∨ kind = .float :=
  (exists_of_number? h).imp And.left And.left

/-- Every text begins with something that the grammar lists, and `recognize` finds it. -/
theorem reads_recognize (mode : Mode) (text : List Char) : Reads mode text (recognize mode text) := by
  cases text with
  | nil => exact .endOfInput
  | cons c rest =>
    cases hm : Punctuation.ofChar? c with
    | some mark =>
      rw [recognize_mark (mark_of_ofChar? hm)]
      exact .punctuation (mark_of_ofChar? hm) rest
    | none =>
      by_cases ha : c.isAlpha = true
      · rw [recognize_letter ha]
        have hc := (isAlpha_iff_letter c).mp ha
        exact .word hc (longest_shape isWordPart_iff hc rest)
      by_cases hn : isNumberStart c = true
      · have hc := (isNumberStart_iff c).mp hn
        have hrun : Longest NumberRun (c :: rest) (c :: rest.takeWhile isNumberPart) :=
          longest_shape isNumberPart_iff hc rest
        rw [recognize_numberStart hn, numberRun]
        cases hv : number? (c :: rest.takeWhile isNumberPart) with
        | none => exact .malformed hc hrun hv
        | some found => exact .number hc hrun (kind_of_number? hv) hv
      by_cases hq : c = '\''
      · subst hq
        rw [recognize_quote]
        by_cases hclosed : Closed mode ('\'' :: rest)
        · cases rest with
          | nil => cases mode <;> simp [Closed] at hclosed
          | cons d rest =>
            rw [quoted_of_closed hclosed]
            exact .character hclosed
        · rw [quoted_of_not_closed hclosed]
          exact .unterminated hclosed
      · rw [recognize_other hm ha hn hq]
        exact .unknown ((ofChar?_eq_none_iff c).mp hm) (fun h => ha ((isAlpha_iff_letter c).mpr h))
          (fun h => hn ((isNumberStart_iff c).mpr h)) hq

/-- The rules of the grammar exclude each other: what they list is what `recognize` finds. -/
theorem recognize_of_reads {mode : Mode} {text : List Char} {outcome : Except Fault Beginning}
    (h : Reads mode text outcome) : recognize mode text = outcome := by
  cases h with
  | endOfInput => rfl
  | punctuation hmark rest => exact recognize_mark hmark rest
  | word hc hfound =>
    rw [recognize_letter ((isAlpha_iff_letter _).mpr hc),
      hfound.unique (longest_shape isWordPart_iff hc _)]
  | number hc hfound hkind hvalue =>
    rw [recognize_numberStart ((isNumberStart_iff _).mpr hc),
      ← hfound.unique (longest_shape isNumberPart_iff hc _), numberRun, hvalue]
  | malformed hc hfound hvalue =>
    rw [recognize_numberStart ((isNumberStart_iff _).mpr hc),
      ← hfound.unique (longest_shape isNumberPart_iff hc _), numberRun, hvalue]
  | character hclosed => exact quoted_of_closed hclosed
  | unterminated hopen => exact quoted_of_not_closed hopen
  | unknown hmark hletter hnumber hquote =>
    exact recognize_other ((ofChar?_eq_none_iff _).mpr hmark)
      (fun h => hletter ((isAlpha_iff_letter _).mp h))
      (fun h => hnumber ((isNumberStart_iff _).mp h)) hquote

theorem reads_iff {mode : Mode} {text : List Char} {outcome : Except Fault Beginning} :
    Reads mode text outcome ↔ outcome = recognize mode text := by
  constructor
  · exact fun h => (recognize_of_reads h).symm
  · rintro rfl
    exact reads_recognize mode text

end Lexemes.Grammar
