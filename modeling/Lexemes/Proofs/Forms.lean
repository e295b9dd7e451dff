import Lexemes.Proofs.Munch

namespace Lexemes

namespace Keyword

theorem ofSpelling?_eq_some_iff (text : String) (word : Keyword) :
    ofSpelling? text = some word ↔ text = word.spelling := by
  constructor
  · intro h
    have hfound := List.find?_some h
    exact (beq_iff_eq.mp hfound).symm
  · rintro rfl
    cases word <;> decide

theorem ofSpelling?_ofList (lexeme : List Char) (word : Keyword) :
    ofSpelling? (String.ofList lexeme) = some word ↔ lexeme = word.spelling.toList := by
  rw [ofSpelling?_eq_some_iff, ← String.toList_inj, String.toList_ofList]

end Keyword

namespace Grammar

def Capital (c : Char) : Prop := 'A' ≤ c ∧ c ≤ 'Z'

def Small (c : Char) : Prop := 'a' ≤ c ∧ c ≤ 'z'

instance : DecidablePred Capital := fun _ => inferInstanceAs (Decidable (_ ∧ _))

/-- The words with a capital first letter, `[A-Z][A-Za-z0-9_]*`. -/
def CapitalWord : List Char → Prop :=
  Shape Capital fun d => Letter d ∨ Digit d ∨ d = '_'

instance : DecidablePred CapitalWord :=
  inferInstanceAs (DecidablePred (Shape Capital fun d => Letter d ∨ Digit d ∨ d = '_'))

/-- The words with a small first letter, `[a-z][A-Za-z0-9_]*`. -/
def SmallWord : List Char → Prop :=
  Shape Small fun d => Letter d ∨ Digit d ∨ d = '_'

/-- The forms of tokens: which lexemes the tokens of a kind have, and which payloads. -/
inductive Formed : List Char → Kind → Payload → Prop
  | endOfInput : Formed [] .endOfInput (.text "")
  | punctuation {c : Char} {mark : Punctuation} (hmark : Mark c mark) :
      Formed [c] (.punctuation mark) (.text (String.ofList [c]))
  | keyword (word : Keyword) : Formed word.spelling.toList (.keyword word) (.text word.spelling)
  | identifier {lexeme : List Char} (hshape : SmallWord lexeme)
      (hfree : Keyword.ofSpelling? (String.ofList lexeme) = none) :
      Formed lexeme .identifier (.text (String.ofList lexeme))
  | lambdaIdentifier {lexeme : List Char} (hshape : CapitalWord lexeme) :
      Formed lexeme .lambdaIdentifier (.text (String.ofList lexeme))
  | character (c : Char) (close : List Char) : Formed ('\'' :: c :: close) .character (.char c)
  | integer (lexeme : List Char) (n : Int64) : Formed lexeme .integer (.integer n)
  | float (lexeme : List Char) (x : Binary64) : Formed lexeme .float (.float x)

variable {mode : Mode} {text lexeme : List Char} {kind : Kind} {payload : Payload}

theorem isUpper_iff_capital (c : Char) : c.isUpper = true ↔ Capital c := by
  change decide (c.val ≥ 'A'.val ∧ c.val ≤ 'Z'.val) = true ↔ _
  rw [decide_eq_true_iff]
  exact Iff.rfl

theorem not_capital_of_small {c : Char} (h : Small c) : ¬Capital c := by
  intro hcapital
  have hsmall : 97 ≤ c.val.toNat := h.1
  have hlarge : c.val.toNat ≤ 90 := hcapital.2
  omega

/-- A word that is not reserved is a lambda identifier exactly if its first letter is a capital. -/
theorem wordKind_cons {c : Char} {tail : List Char}
    (hfree : Keyword.ofSpelling? (String.ofList (c :: tail)) = none) :
    wordKind (String.ofList (c :: tail)) = if Capital c then .lambdaIdentifier else .identifier := by
  have hhead : (String.ofList (c :: tail)).toList.head?.any Char.isUpper = c.isUpper := by
    rw [String.toList_ofList]
    rfl
  rw [wordKind, hfree, hhead]
  exact if_congr (isUpper_iff_capital c) rfl rfl

/-- The reserved words begin with small letters. -/
theorem not_capitalWord_spelling (word : Keyword) : ¬CapitalWord word.spelling.toList := by
  cases word <;> decide

theorem ofSpelling?_of_capitalWord (h : CapitalWord lexeme) :
    Keyword.ofSpelling? (String.ofList lexeme) = none := by
  cases hword : Keyword.ofSpelling? (String.ofList lexeme) with
  | none => rfl
  | some word =>
    rw [(Keyword.ofSpelling?_ofList lexeme word).mp hword] at h
    exact absurd h (not_capitalWord_spelling word)

theorem word_spelling (word : Keyword) : Word word.spelling.toList := by
  cases word <;> decide

theorem formed_word (h : Word lexeme) :
    Formed lexeme (wordKind (String.ofList lexeme)) (.text (String.ofList lexeme)) := by
  cases lexeme with
  | nil => exact absurd h id
  | cons c tail =>
    cases hword : Keyword.ofSpelling? (String.ofList (c :: tail)) with
    | some word =>
      have hlexeme : c :: tail = word.spelling.toList := (Keyword.ofSpelling?_ofList _ _).mp hword
      have hkind : wordKind (String.ofList (c :: tail)) = .keyword word := by rw [wordKind, hword]
      rw [hkind, hlexeme, String.ofList_toList]
      exact .keyword word
    | none =>
      have hletter : Capital c ∨ Small c := h.1
      rw [wordKind_cons hword]
      rcases hletter with hcapital | hsmall
      · rw [if_pos hcapital]
        exact .lambdaIdentifier ⟨hcapital, h.2⟩
      · rw [if_neg (not_capital_of_small hsmall)]
        exact .identifier ⟨hsmall, h.2⟩ hword

/-- Whatever a text begins with has one of the forms. -/
theorem formed_of_recognize (h : recognize mode text = .ok ⟨lexeme, kind, payload⟩) :
    Formed lexeme kind payload := by
  have hreads := reads_recognize mode text
  rw [h] at hreads
  cases hreads with
  | endOfInput => exact .endOfInput
  | punctuation hmark rest => exact .punctuation hmark
  | word hc hfound => exact formed_word hfound.mem
  | number hc hfound hkind hvalue =>
    rcases exists_of_number? hvalue with ⟨rfl, n, rfl⟩ | ⟨rfl, x, rfl⟩
    · exact .integer lexeme n
    · exact .float lexeme x
  | @character c rest hclosed => exact .character c (rest.take 1)

namespace Formed

variable (h : Formed lexeme kind payload)
include h

theorem isLiteral_iff : kind.isLiteral = true ↔ payload.text? = none := by
  cases h with
  | character | integer | float => exact iff_of_true rfl rfl
  | _ => exact iff_of_false Bool.false_ne_true (Option.some_ne_none _)

theorem payload_of_not_literal (hkind : kind.isLiteral = false) : payload = .text (String.ofList lexeme) := by
  cases h with
  | keyword word => rw [String.ofList_toList]
  | character | integer | float => cases hkind
  | _ => rfl

theorem payload_of_integer (hkind : kind = .integer) : ∃ n, payload = .integer n := by
  subst hkind
  cases h with
  | integer lexeme n => exact ⟨n, rfl⟩

theorem payload_of_float (hkind : kind = .float) : ∃ x, payload = .float x := by
  subst hkind
  cases h with
  | float lexeme x => exact ⟨x, rfl⟩

theorem payload_of_character (hkind : kind = .character) : ∃ c, payload = .char c := by
  subst hkind
  cases h with
  | character c close => exact ⟨c, rfl⟩

theorem second_of_char {c : Char} (hpayload : payload = .char c) : lexeme[1]? = some c := by
  subst hpayload
  cases h with
  | character c close => rfl

end Formed

end Grammar

end Lexemes
