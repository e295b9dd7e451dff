import Lexemes.Proofs.Forms
import Lexemes.Proofs.Leniency

namespace Lexemes

/-- A token that some session hands out. -/
def Token.Yielded (t : Token) : Prop :=
  ∃ source mode orders order,
    .ok t ∈ (((Session.ofText source mode).after orders).perform order).1.handedOut

namespace Kind

theorem isKeyword_iff (k : Kind) : k.isKeyword = true ↔ ∃ word, k = .keyword word := by
  constructor
  · intro h
    cases k with
    | keyword word => exact ⟨word, rfl⟩
    | _ => cases h
  · rintro ⟨word, rfl⟩
    rfl

theorem isPunctuation_iff (k : Kind) : k.isPunctuation = true ↔ ∃ mark, k = .punctuation mark := by
  constructor
  · intro h
    cases k with
    | punctuation mark => exact ⟨mark, rfl⟩
    | _ => cases h
  · rintro ⟨mark, rfl⟩
    rfl

end Kind

namespace Grammar

variable {mode : Mode} {lexeme : List Char} {kind : Kind} {payload : Payload}

section Recognized

variable (h : recognize mode lexeme = .ok ⟨lexeme, kind, payload⟩)
include h

theorem kind_eq_endOfInput_iff : kind = .endOfInput ↔ lexeme = [] := by
  constructor
  · rintro rfl
    cases formed_of_recognize h
    rfl
  · rintro rfl
    cases h
    rfl

theorem kind_eq_punctuation_iff (mark : Punctuation) :
    kind = .punctuation mark ↔ lexeme = [mark.symbol] := by
  constructor
  · rintro rfl
    cases formed_of_recognize h with
    | punctuation hmark => rw [hmark.eq_symbol]
  · rintro rfl
    rw [recognize_mark (mark_symbol mark)] at h
    cases h
    rfl

theorem kind_of_word (hword : Word lexeme) : kind = wordKind (String.ofList lexeme) := by
  rw [recognize_word hword] at h
  cases h
  rfl

theorem kind_eq_keyword_iff (word : Keyword) :
    kind = .keyword word ↔ lexeme = word.spelling.toList := by
  constructor
  · rintro rfl
    cases formed_of_recognize h
    rfl
  · intro hlexeme
    have hword : Word lexeme := hlexeme ▸ word_spelling word
    rw [kind_of_word h hword, wordKind, (Keyword.ofSpelling?_ofList _ word).mpr hlexeme]

theorem kind_eq_identifier_iff :
    kind = .identifier ↔ SmallWord lexeme ∧ Keyword.ofSpelling? (String.ofList lexeme) = none := by
  constructor
  · rintro rfl
    cases formed_of_recognize h with
    | identifier hshape hfree => exact ⟨hshape, hfree⟩
  · rintro ⟨hshape, hfree⟩
    cases lexeme with
    | nil => exact absurd hshape id
    | cons c tail =>
      have hword : Word (c :: tail) := ⟨Or.inr hshape.1, hshape.2⟩
      rw [kind_of_word h hword, wordKind_cons hfree, if_neg (not_capital_of_small hshape.1)]

theorem kind_eq_lambdaIdentifier_iff : kind = .lambdaIdentifier ↔ CapitalWord lexeme := by
  constructor
  · rintro rfl
    cases formed_of_recognize h with
    | lambdaIdentifier hshape => exact hshape
  · intro hshape
    cases lexeme with
    | nil => exact absurd hshape id
    | cons c tail =>
      have hword : Word (c :: tail) := ⟨Or.inl hshape.1, hshape.2⟩
      rw [kind_of_word h hword, wordKind_cons (ofSpelling?_of_capitalWord hshape), if_pos hshape.1]

end Recognized

end Grammar

namespace Token

/-- A token whose kind, lexeme and payload agree: the lexeme tells the kind, and the kind tells the sort
of the payload. -/
structure Coherent (t : Token) : Prop where
  keyword : t.kind.isKeyword = true ↔ (Keyword.ofSpelling? t.lexeme).isSome = true
  reserved : ∀ word, Keyword.ofSpelling? t.lexeme = some word → t.kind = .keyword word
  punctuation : t.kind.isPunctuation = true ↔
    ∃ c mark, t.lexeme.toList = [c] ∧ Punctuation.ofChar? c = some mark ∧ t.kind = .punctuation mark
  marked : ∀ c mark, t.lexeme.toList = [c] → Punctuation.ofChar? c = some mark →
    t.kind = .punctuation mark
  identifier : t.kind = .identifier ↔
    Grammar.SmallWord t.lexeme.toList ∧ Keyword.ofSpelling? t.lexeme = none
  lambdaIdentifier : t.kind = .lambdaIdentifier ↔ Grammar.CapitalWord t.lexeme.toList
  isEnd : t.isEnd = true ↔ t.lexeme = ""
  literal : t.kind.isLiteral = true ↔ t.payload.text? = none
  text : t.kind.isLiteral = false → t.payload = .text t.lexeme
  integer : t.kind = .integer → ∃ n, t.payload = .integer n
  float : t.kind = .float → ∃ x, t.payload = .float x
  character : t.kind = .character → ∃ c, t.payload = .char c
  second : ∀ c, t.payload = .char c → t.lexeme.toList[1]? = some c

/-- A lexeme that is recognized as its own token makes a coherent one. -/
theorem coherent_of_recognize {mode : Mode} {b : Grammar.Beginning} (p : Position)
    (h : Grammar.recognize mode b.lexeme = .ok b) : (b.token p).Coherent := by
  obtain ⟨lexeme, kind, payload⟩ := b
  have hformed : Grammar.Formed lexeme kind payload := Grammar.formed_of_recognize h
  have hlexeme : (String.ofList lexeme).toList = lexeme := String.toList_ofList
  have hkeyword (word : Keyword) :
      kind = .keyword word ↔ Keyword.ofSpelling? (String.ofList lexeme) = some word :=
    (Grammar.kind_eq_keyword_iff h word).trans (Keyword.ofSpelling?_ofList lexeme word).symm
  have hmarked (c : Char) (mark : Punctuation) (hc : (String.ofList lexeme).toList = [c])
      (hmark : Punctuation.ofChar? c = some mark) : kind = .punctuation mark := by
    rw [hlexeme] at hc
    rw [Grammar.kind_eq_punctuation_iff h, hc, (Grammar.mark_of_ofChar? hmark).eq_symbol]
  refine
    { keyword := ?keyword, reserved := fun word => (hkeyword word).mpr, punctuation := ?punctuation,
      marked := hmarked, identifier := ?identifier, lambdaIdentifier := ?lambdaIdentifier,
      isEnd := ?isEnd, literal := hformed.isLiteral_iff, text := hformed.payload_of_not_literal,
      integer := hformed.payload_of_integer, float := hformed.payload_of_float,
      character := hformed.payload_of_character, second := ?second }
  case keyword =>
    rw [Kind.isKeyword_iff, Option.isSome_iff_exists]
    exact exists_congr hkeyword
  case punctuation =>
    rw [Kind.isPunctuation_iff]
    constructor
    · rintro ⟨mark, hkind⟩
      have hsymbol : lexeme = [mark.symbol] := (Grammar.kind_eq_punctuation_iff h mark).mp hkind
      have hmark : Punctuation.ofChar? mark.symbol = some mark :=
        Grammar.ofChar?_of_mark (Grammar.mark_symbol mark)
      exact ⟨mark.symbol, mark, hlexeme.trans hsymbol, hmark, hkind⟩
    · rintro ⟨c, mark, -, -, hkind⟩
      exact ⟨mark, hkind⟩
  case identifier =>
    show kind = _ ↔ Grammar.SmallWord (String.ofList lexeme).toList ∧ _
    rw [hlexeme]
    exact Grammar.kind_eq_identifier_iff h
  case lambdaIdentifier =>
    show kind = _ ↔ Grammar.CapitalWord (String.ofList lexeme).toList
    rw [hlexeme]
    exact Grammar.kind_eq_lambdaIdentifier_iff h
  case isEnd =>
    show (kind == .endOfInput) = true ↔ String.ofList lexeme = String.ofList []
    rw [beq_iff_eq, String.ofList_inj]
    exact Grammar.kind_eq_endOfInput_iff h
  case second =>
    intro c hpayload
    show (String.ofList lexeme).toList[1]? = some c
    rw [hlexeme]
    exact hformed.second_of_char hpayload

theorem Yielded.mem_drain (h : t.Yielded) : ∃ source mode, .ok t ∈ (Scanner.ofText source mode).drain.1 := by
  obtain ⟨source, mode, orders, order, hmem⟩ := h
  obtain ⟨q, hq⟩ := Recording.after_ofText source mode orders
  rw [hq, Recording.perform_session] at hmem
  exact ⟨source, mode, Recording.mem_of_mem_perform hmem⟩

/-- Every token that is yielded is coherent, and two of them with the same lexeme, whatever texts and
modes they come from, are of the same kind and have the same payload. -/
theorem yielded_coherent (t u : Token) (ht : t.Yielded) (hu : u.Yielded) :
    t.Coherent ∧ (t.lexeme = u.lexeme → t.kind = u.kind ∧ t.payload = u.payload) := by
  obtain ⟨source, mode, hmem⟩ := ht.mem_drain
  obtain ⟨other, otherMode, hother⟩ := hu.mem_drain
  obtain ⟨text, b, hb, htoken⟩ := Scanner.recognized_of_mem_drain hmem
  have hagain : Grammar.recognize .lenient b.lexeme = .ok b := Grammar.recognize_lenient_lexeme hb
  have hcoherent : t.Coherent := by
    rw [htoken]
    exact coherent_of_recognize t.position hagain
  exact ⟨hcoherent, Scanner.eq_of_lexeme_eq hmem hother⟩

/-- A literal of a quote, read strictly on a second line and leniently at the start of another text. -/
theorem yielded_coherent_quote :
    let t : Token := ⟨.character, "'''", .char '\'', ⟨2, 2, 1⟩⟩
    let u : Token := ⟨.character, "'''", .char '\'', ⟨0, 1, 1⟩⟩
    t.Yielded ∧ u.Yielded ∧ t.Coherent ∧ t.kind = u.kind ∧ t.payload = u.payload := by
  intro t u
  have ht : t.Yielded :=
    ⟨"(\n'''".toList, .strict, [.next], .next, List.mem_singleton.mpr (by decide)⟩
  have hu : u.Yielded :=
    ⟨"'''x".toList, .lenient, [], .items 1, List.mem_singleton.mpr (by decide)⟩
  obtain ⟨hcoherent, hsame⟩ := yielded_coherent t u ht hu
  exact ⟨ht, hu, hcoherent, hsame rfl⟩

end Token

end Lexemes
