import Lexemes.Proofs.Json.Lines
import Mathlib.Data.List.Nodup

namespace Lexemes

open Json (Shown shown_cons shown_append)

/-- A text can be cut at the first place of a character in one way only. -/
theorem Text.cut_inj {mark : Char} {a b rest other : List Char} (ha : mark ∉ a) (hb : mark ∉ b)
    (h : a ++ mark :: rest = b ++ mark :: other) : a = b ∧ rest = other := by
  induction a generalizing b with
  | nil =>
    cases b with
    | nil => exact ⟨rfl, (List.cons.inj h).2⟩
    | cons d b =>
      obtain rfl : mark = d := (List.cons.inj h).1
      exact absurd List.mem_cons_self hb
  | cons c a ih =>
    cases b with
    | nil =>
      obtain rfl : c = mark := (List.cons.inj h).1
      exact absurd List.mem_cons_self ha
    | cons d b =>
      obtain ⟨rfl, htail⟩ := List.cons.inj h
      obtain ⟨rfl, hrest⟩ := ih (List.not_mem_of_not_mem_cons ha) (List.not_mem_of_not_mem_cons hb) htail
      exact ⟨rfl, hrest⟩

namespace Text.Quoted

/-- Reads what is written behind a backslash: a number between braces, one of four letters, or the
character itself. -/
def unmarked? : List Char → Option (Char × List Char)
  | [] => none
  | '0' :: rest => some ('\x00', rest)
  | 't' :: rest => some ('\t', rest)
  | 'n' :: rest => some ('\n', rest)
  | 'r' :: rest => some ('\r', rest)
  | 'u' :: '{' :: rest =>
    (Json.Reader.hexValue? (rest.takeWhile (· != '}'))).map fun code =>
      (Char.ofNat code, (rest.dropWhile (· != '}')).tail)
  | c :: rest => some (c, rest)

/-- Reads one character that is written between quotes. A quote by itself is none. -/
def unescape? : List Char → Option (Char × List Char)
  | [] => none
  | c :: rest =>
    if c = '"' then none
    else if c = '\\' then unmarked? rest
    else some (c, rest)

section Hexadecimal

theorem mem_toDigits_sixteen {n : Nat} {c : Char} (h : c ∈ Nat.toDigits 16 n) : ∃ m < 16, c = m.digitChar := by
  induction n using Nat.strongRecOn with
  | ind n ih =>
    rw [Nat.toDigits_eq_if (by decide)] at h
    split at h
    next hsmall => exact ⟨n, hsmall, List.mem_singleton.mp h⟩
    next hlarge =>
      rcases List.mem_append.mp h with hleading | hlast
      · exact ih (n / 16) (by omega) hleading
      · exact ⟨n % 16, Nat.mod_lt n (by decide), List.mem_singleton.mp hlast⟩

theorem hexValue?_toDigits (n : Nat) : Json.Reader.hexValue? (Nat.toDigits 16 n) = some n := by
  induction n using Nat.strongRecOn with
  | ind n ih =>
    rw [Nat.toDigits_eq_if (by decide)]
    split
    next hsmall =>
      show ((Json.Reader.hexDigit? n.digitChar).map (16 * 0 + ·)).bind some = _
      rw [Json.Reader.hexDigit?_digitChar hsmall]
      simp
    next hlarge =>
      have hleading := ih (n / 16) (by omega)
      have hlast := Json.Reader.hexDigit?_digitChar (Nat.mod_lt n (show 0 < 16 by decide))
      rw [Json.Reader.hexValue?] at hleading ⊢
      rw [List.foldlM_append, hleading]
      show ((Json.Reader.hexDigit? (n % 16).digitChar).map (16 * (n / 16) + ·)).bind some = _
      rw [hlast]
      show some (16 * (n / 16) + n % 16) = _
      rw [Nat.div_add_mod]

end Hexadecimal

variable {hidden : Nat → Bool} {rest other : List Char}

/-- The number of a character ends at the brace that closes it, as no digit is a brace. -/
theorem unmarked?_number (c : Char) (rest : List Char) :
    unmarked? ('u' :: '{' :: (Nat.toDigits 16 c.toNat ++ '}' :: rest)) = some (c, rest) := by
  have hplain : ∀ m < 16, (m.digitChar != '}') = true := by decide
  have hdigits : ∀ d ∈ Nat.toDigits 16 c.toNat, (d != '}') = true := by
    intro d hd
    obtain ⟨m, hm, rfl⟩ := mem_toDigits_sixteen hd
    exact hplain m hm
  have hbrace : ('}' :: rest).takeWhile (· != '}') = [] ∧ ('}' :: rest).dropWhile (· != '}') = '}' :: rest :=
    ⟨rfl, rfl⟩
  have htake : (Nat.toDigits 16 c.toNat ++ '}' :: rest).takeWhile (· != '}') = Nat.toDigits 16 c.toNat := by
    rw [List.takeWhile_append_of_pos hdigits, hbrace.1, List.append_nil]
  have hdrop : (Nat.toDigits 16 c.toNat ++ '}' :: rest).dropWhile (· != '}') = '}' :: rest := by
    rw [List.dropWhile_append_of_pos hdigits, hbrace.2]
  rw [unmarked?, htake, hdrop, hexValue?_toDigits, Option.map_some, Char.ofNat_toNat]
  rfl

/-- A character is read back from what is written for it, and nothing behind that is touched. -/
theorem unescape?_append (hidden : Nat → Bool) (c : Char) (rest : List Char) :
    unescape? (escapeHiding hidden c ++ rest) = some (c, rest) := by
  unfold escapeHiding
  split_ifs with hquote hbackslash hnul htab hfeed hreturn hhidden
  · rw [hquote]
    rfl
  · rw [hbackslash]
    rfl
  · rw [hnul]
    rfl
  · rw [htab]
    rfl
  · rw [hfeed]
    rfl
  · rw [hreturn]
    rfl
  · rw [List.append_assoc]
    exact unmarked?_number c rest
  · exact (if_neg hquote).trans (if_neg hbackslash)

theorem quote_ne_flatMap (hidden : Nat → Bool) (c : Char) (text rest other : List Char) :
    '"' :: rest ≠ (c :: text).flatMap (escapeHiding hidden) ++ other := by
  intro h
  have hread := congrArg unescape? h
  rw [List.flatMap_cons, List.append_assoc, unescape?_append] at hread
  cases hread

/-- The quote that ends a quotation is the first one that stands by itself. -/
theorem flatMap_append_inj {a b : List Char}
    (h : a.flatMap (escapeHiding hidden) ++ '"' :: rest = b.flatMap (escapeHiding hidden) ++ '"' :: other) :
    a = b ∧ rest = other := by
  induction a generalizing b with
  | nil =>
    cases b with
    | nil => exact ⟨rfl, (List.cons.inj h).2⟩
    | cons d b => exact absurd h (quote_ne_flatMap hidden d b _ _)
  | cons c a ih =>
    cases b with
    | nil => exact absurd h.symm (quote_ne_flatMap hidden c a _ _)
    | cons d b =>
      have hread := congrArg unescape? h
      rw [List.flatMap_cons, List.flatMap_cons, List.append_assoc, List.append_assoc, unescape?_append,
        unescape?_append] at hread
      obtain ⟨rfl, htail⟩ := Prod.mk.inj (Option.some.inj hread)
      obtain ⟨rfl, hend⟩ := ih htail
      exact ⟨rfl, hend⟩

theorem quoteHiding_append_inj {a b : List Char}
    (h : quoteHiding hidden a ++ rest = quoteHiding hidden b ++ other) : a = b ∧ rest = other := by
  rw [quoteHiding, quoteHiding, List.append_assoc, List.append_assoc] at h
  exact flatMap_append_inj (List.cons.inj h).2

section Shown

variable (hcontrols : ∀ code < 0x20, hidden code = true)
include hcontrols

theorem shown_escapeHiding (c : Char) : Shown (escapeHiding hidden c) := by
  unfold escapeHiding
  split_ifs with hquote hbackslash hnul htab hfeed hreturn hhidden
  · decide
  · decide
  · decide
  · decide
  · decide
  · decide
  · have hdigits : Shown (Nat.toDigits 16 c.toNat) := by
      intro d hd
      obtain ⟨m, hm, rfl⟩ := mem_toDigits_sixteen hd
      exact Json.code_digitChar hm
    have hmark : Shown ['\\', 'u', '{'] := by decide
    exact shown_append (shown_append hmark hdigits) (by decide)
  · have hcode : 0x20 ≤ c.toNat := Nat.le_of_not_lt fun hcontrol => hhidden (hcontrols _ hcontrol)
    exact shown_cons hcode (List.forall_mem_nil _)

theorem shown_quoteHiding (text : List Char) : Shown (quoteHiding hidden text) := by
  have hbody : Shown (text.flatMap (escapeHiding hidden)) :=
    Json.shown_flatMap (shown_escapeHiding hcontrols) text
  exact shown_append (shown_cons (by decide) hbody) (by decide)

end Shown

end Text.Quoted

namespace Kind

/-- The names are made of capital letters and underscores, none of which comes before the first letter. -/
theorem le_of_mem_name (k : Kind) : ∀ c ∈ k.name.toList, 'A' ≤ c := by
  have hall : ∀ l : Kind, l.name.toList.all (fun c => decide ('A' ≤ c)) = true :=
    forall_of_all (by decide)
  intro c hc
  exact of_decide_eq_true (List.all_eq_true.mp (hall k) c hc)

theorem shown_name (k : Kind) : Shown k.name.toList :=
  fun c hc => Json.code_le (by decide) (k.le_of_mem_name c hc)

theorem space_not_mem_name (k : Kind) : ' ' ∉ k.name.toList := by
  intro hspace
  exact absurd (k.le_of_mem_name ' ' hspace) (by decide)

theorem name_injective : Function.Injective name := by
  intro k l h
  have hnames : (all.map name).Nodup := by decide
  exact List.inj_on_of_nodup_map hnames k.mem_all l.mem_all h

end Kind

namespace Token

/-- The text of a token in messages if a given class of code points is taken not to show. -/
def displayHiding (hidden : Nat → Bool) (t : Token) : List Char :=
  t.kind.name.toList ++ ' ' :: Text.Quoted.quoteHiding hidden t.lexeme.toList ++ " at ".toList ++
    Numeral.ofNat t.position.line ++ ':' :: Numeral.ofNat t.position.column

/-- Tokens that differ in their values and offsets at most. -/
structure Alike (t u : Token) : Prop where
  kind : t.kind = u.kind
  lexeme : t.lexeme = u.lexeme
  line : t.position.line = u.position.line
  column : t.position.column = u.position.column

/-- The characters that are taken not to show are one such class. -/
theorem display_eq (t : Token) : t.display = t.displayHiding Text.Quoted.isHidden := rfl

variable {hidden : Nat → Bool} {t u : Token}

/-- The name of the kind ends at the first space, and the quotation where the quote is that ends it. -/
theorem alike_of_displayHiding_eq (h : t.displayHiding hidden = u.displayHiding hidden) : t.Alike u := by
  simp only [displayHiding, List.append_assoc, List.cons_append] at h
  obtain ⟨hname, htail⟩ := Text.cut_inj t.kind.space_not_mem_name u.kind.space_not_mem_name h
  obtain ⟨hlexeme, htail⟩ := Text.Quoted.quoteHiding_append_inj htail
  have hcolon (n : Nat) : Json.EndsDigits (':' :: Numeral.ofNat n) :=
    (Json.endsNumber_cons _ (by decide)).digits
  obtain ⟨hline, hcolumn⟩ := Json.ofNat_append_inj (hcolon _) (hcolon _) (List.append_cancel_left htail)
  exact
    { kind := Kind.name_injective (String.toList_inj.mp hname)
      lexeme := String.toList_inj.mp hlexeme
      line := hline
      column := Numeral.ofNat_injective (List.cons.inj hcolumn).2 }

theorem shown_displayHiding (hcontrols : ∀ code < 0x20, hidden code = true) (t : Token) :
    Shown (t.displayHiding hidden) := by
  have hquoted : Shown (Text.Quoted.quoteHiding hidden t.lexeme.toList) :=
    Text.Quoted.shown_quoteHiding hcontrols _
  have hcolumn : Shown (':' :: Numeral.ofNat t.position.column) :=
    shown_cons (by decide) (Json.shown_toDigits _)
  exact shown_append
    (shown_append
      (shown_append (shown_append t.kind.shown_name (shown_cons (by decide) hquoted)) (by decide))
      (Json.shown_toDigits _))
    hcolumn

/-- Tokens with the same text in messages are of the same kind, and have the same lexeme, line and column,
and there is no control character in such a text. This is so whichever characters are taken not to show,
as long as the controls are among them. -/
theorem display_unambiguous (t u : Token) :
    (t.display = u.display → t.Alike u) ∧ (∀ c ∈ t.display, 0x20 ≤ c.toNat) ∧
      ∀ hidden : Nat → Bool, (∀ code < 0x20, hidden code = true) →
        (t.displayHiding hidden = u.displayHiding hidden → t.Alike u) ∧
          ∀ c ∈ t.displayHiding hidden, 0x20 ≤ c.toNat := by
  refine ⟨?_, ?_, ?_⟩
  · intro h
    rw [display_eq, display_eq] at h
    exact alike_of_displayHiding_eq h
  · rw [display_eq]
    exact shown_displayHiding Text.Quoted.isHidden_of_control t
  · exact fun hidden hhidden => ⟨alike_of_displayHiding_eq, shown_displayHiding hhidden t⟩

/-- A lexeme that looks like the end of its quotation and a place behind it, in tokens with different
values and offsets. -/
theorem display_unambiguous_imitation :
    let t : Token := ⟨.identifier, "a\" at 1:1", .text "a", ⟨7, 2, 3⟩⟩
    let u : Token := ⟨.identifier, "a\" at 1:1", .integer 0, ⟨0, 2, 3⟩⟩
    t.display = "IDENTIFIER \"a\\\" at 1:1\" at 2:3".toList ∧ t.display = u.display ∧ t.Alike u := by
  intro t u
  have hsame : t.display = u.display := rfl
  exact ⟨by decide +kernel, hsame, (display_unambiguous t u).1 hsame⟩

end Token

end Lexemes
